import KirkForge.Orchestrator.HealthServer

/-!
# Authorized endpoints

The permission is looked up under the normalized URL and the handler by the URL itself. They agree
because the router knows exact paths only: a URL that it accepts has no query and no slash at its
end, so it is its own normal form, and the table has an entry for it.
-/

namespace KirkForge.HealthServer

variable {env : HealthEnv} {s : HealthServer}

/-- The permission that goes with a handler, under whichever path it is reached. -/
def handlerPermission : DataHandler → Permission
  | .healthz | .readyz => .operatorHealth
  | .metricsJson | .metricsPrometheus | .openApi => .viewerMetrics
  | .policy => .adminPolicy
  | .auditVerify => .adminAuditExport
  | .tenants | .quotas => .adminTenant

/-- The paths by which a handler is reached. -/
def handlerPaths : DataHandler → List String
  | .healthz => ["/healthz", "/v1/healthz"]
  | .readyz => ["/readyz", "/v1/readyz"]
  | .metricsJson => ["/metrics", "/v1/metrics/json"]
  | .metricsPrometheus => ["/metrics/prometheus", "/v1/metrics"]
  | .policy => ["/v1/policy"]
  | .auditVerify => ["/v1/audit"]
  | .tenants => ["/v1/tenants"]
  | .openApi => ["/v1/openapi"]
  | .quotas => ["/v1/quotas"]

theorem routeV1_eq_data {path : String} {handler : DataHandler}
    (h : routeV1 path = .data handler) : "/v1/" ++ path ∈ handlerPaths handler := by
  unfold routeV1 at h
  split at h <;> cases h <;> decide

theorem eq_append_of_startsWith {url front : String} (h : Text.startsWith url front = true) :
    url = front ++ Text.sliceFrom url front.length := by
  obtain ⟨rest, hrest⟩ := List.isPrefixOf_iff_prefix.mp h
  apply String.toList_injective
  rw [String.toList_append, Text.sliceFrom, String.toList_ofList, ← hrest, ← String.length_toList,
    List.drop_left]

theorem route_eq_data {url : String} {handler : DataHandler} (h : route url = .data handler) :
    url ∈ handlerPaths handler := by
  rw [route] at h
  cases hv1 : Text.startsWith url "/v1/" with
  | true =>
    rw [hv1, if_pos rfl] at h
    rw [eq_append_of_startsWith hv1]
    exact routeV1_eq_data h
  | false =>
    rw [hv1, if_neg Bool.false_ne_true] at h
    by_cases hhealthz : url = "/healthz"
    · rw [if_pos hhealthz] at h
      cases h
      exact hhealthz ▸ .head _
    rw [if_neg hhealthz] at h
    by_cases hreadyz : url = "/readyz"
    · rw [if_pos hreadyz] at h
      cases h
      exact hreadyz ▸ .head _
    rw [if_neg hreadyz] at h
    by_cases hmetrics : url = "/metrics"
    · rw [if_pos hmetrics] at h
      cases h
      exact hmetrics ▸ .head _
    rw [if_neg hmetrics] at h
    by_cases hprometheus : url = "/metrics/prometheus"
    · rw [if_pos hprometheus] at h
      cases h
      exact hprometheus ▸ .head _
    · rw [if_neg hprometheus] at h
      cases h

/-- A path that is routed is its own normal form and has the handler's permission. -/
theorem handlerPaths_checked (handler : DataHandler) : ∀ path ∈ handlerPaths handler,
    normalizeUrl path = path ∧
      OrderedMap.lookup path endpointPermissions = some (handlerPermission handler) := by
  cases handler <;> decide

theorem checkPermission_eq_none {actor : Actor} {path : String} {permission : Permission}
    {s' : HealthServer} (hpath : OrderedMap.lookup path endpointPermissions = some permission)
    (h : s.checkPermission actor path = (s', none)) : authorize actor permission = .ok () := by
  simp only [checkPermission, hpath] at h
  cases hauthorize : authorize actor permission with
  | ok _ => rfl
  | error e =>
    rw [hauthorize] at h
    cases h

/-- Who is let through to a handler is authorized for it. -/
theorem admit_eq_data {request : HealthRequest} {handler : DataHandler}
    (h : (s.accept env request).2 = .data handler) :
    ∃ actor, (s.resolveActor env request.authorization).2 = .ok actor ∧
      request.path ∈ handlerPaths handler ∧
        authorize actor (handlerPermission handler) = .ok () := by
  rw [accept] at h
  generalize s.resolveActor env request.authorization = resolved at h ⊢
  obtain ⟨s, refusal | actor⟩ := resolved
  · cases h
  refine ⟨actor, rfl, ?_⟩
  cases hrate : request.withinRate actor with
  | false =>
    simp only [hrate] at h
    cases h
  | true =>
    simp only [hrate, Bool.not_true, Bool.false_eq_true, if_false] at h
    cases hcheck : s.checkPermission actor (normalizeUrl request.path) with
    | mk s' refusal =>
      rw [hcheck] at h
      cases refusal with
      | some refusal => cases h
      | none =>
        have hpath : request.path ∈ handlerPaths handler := route_eq_data h
        obtain ⟨hnormal, hlookup⟩ := handlerPaths_checked handler _ hpath
        rw [hnormal] at hcheck
        exact ⟨hpath, checkPermission_eq_none hlookup hcheck⟩

/-- The actor of a request that is neither refused for its method nor during a shutdown. -/
def actorOf (env : HealthEnv) (s : HealthServer) (request : HealthRequest) : Option Actor :=
  ({ s with requestCount := s.requestCount + 1 }.resolveActor env request.authorization).2.toOption

theorem requestHandler_eq_data {request : HealthRequest} {handler : DataHandler}
    (h : (s.requestHandler env request).2 = .data handler) :
    ({ s with requestCount := s.requestCount + 1 }.accept env request).2 = .data handler := by
  rw [requestHandler] at h
  generalize (request.method.map toUpperCase).getD "GET" = method at h
  by_cases hoptions : method = "OPTIONS"
  · simp only [if_pos hoptions] at h
    cases h
  by_cases hmethod : method ≠ "GET" ∧ method ≠ "HEAD"
  · simp only [if_neg hoptions, if_pos hmethod] at h
    cases h
  cases hshutting : s.shuttingDown with
  | true =>
    simp only [if_neg hoptions, if_neg hmethod, hshutting, if_true] at h
    cases h
  | false =>
    simp only [if_neg hoptions, if_neg hmethod, hshutting, Bool.false_eq_true, if_false] at h
    cases hbody : request.body with
    | passed => rwa [hbody] at h
    | tooLarge => rw [hbody] at h; cases h
    | broken => rw [hbody] at h; cases h

/-- Whatever the URL, a request reaches a data handler only with an actor that is authorized for
what the table asks of the URL, and of every other URL under which the handler is reached. -/
theorem requestHandler_authorized (env : HealthEnv) (s : HealthServer) (request : HealthRequest)
    (handler : DataHandler) (h : (s.requestHandler env request).2 = .data handler) :
    ∃ actor, actorOf env s request = some actor ∧
      (∃ permission, OrderedMap.lookup request.path endpointPermissions = some permission ∧
        authorize actor permission = .ok ()) ∧
      ∀ endpoint permission, route endpoint = .data handler →
        OrderedMap.lookup endpoint endpointPermissions = some permission →
          authorize actor permission = .ok () := by
  obtain ⟨actor, hactor, hpath, hauthorized⟩ := admit_eq_data (requestHandler_eq_data h)
  refine ⟨actor, ?_, ⟨handlerPermission handler, ?_, hauthorized⟩, ?_⟩
  · rw [actorOf, hactor]
    rfl
  · exact (handlerPaths_checked handler _ hpath).2
  · intro endpoint permission hroute hlookup
    rw [(handlerPaths_checked handler _ (route_eq_data hroute)).2] at hlookup
    obtain rfl := Option.some.inj hlookup
    exact hauthorized

private def exampleServer : HealthServer := { apiKey := some "k3y" }

private def exampleHealthEnv : HealthEnv where
  jose := ⟨fun _ _ _ _ => .error "no keys", .ok, fun _ => none⟩
  now := 1700000000000
  isoText _ := "2023-11-14T22:13:20.000Z"

private def healthzRequest : HealthRequest where
  method := some "GET"
  url := some "/v1/healthz"
  authorization := some "Bearer k3y"

theorem requestHandler_authorized_operator :
    ∃ actor, actorOf exampleHealthEnv exampleServer healthzRequest = some actor ∧
      (∃ permission,
        OrderedMap.lookup healthzRequest.path endpointPermissions = some permission ∧
          authorize actor permission = .ok ()) ∧
      ∀ endpoint permission, route endpoint = .data .healthz →
        OrderedMap.lookup endpoint endpointPermissions = some permission →
          authorize actor permission = .ok () :=
  requestHandler_authorized exampleHealthEnv exampleServer healthzRequest .healthz
    (by decide +kernel)

/-- With a query the permission is that of the policy, but nothing is routed. -/
example : (requestHandler exampleHealthEnv {} { url := some "/v1/policy?all" }).2 =
    .notFound "not_found" := by decide

end KirkForge.HealthServer
