import KirkForge.CoreTypes.Access
import KirkForge.Theory.OrderedMap
import KirkForge.Theory.Run
import KirkForge.Theory.Text
import KirkForge.Theory.TokenBucket
import Mathlib.Data.NNRat.Defs

/-!
# The rate limits of the health server

`checkRateLimit` (`health-server/rate-limit.ts`) takes a token from the bucket of the tenant, then
one from the bucket of the client; the timer that `start` sets (`health-server.ts`) throws away
buckets that have not been used for a minute. Times are in milliseconds.
-/

namespace KirkForge

abbrev RateBucket := TokenBucket ℚ

namespace RateLimit

/-- The configured limits. A limit that is not positive is off. -/
structure Rates where
  rateLimitPerSec : ℚ
  rateLimitPerSecPerTenant : ℚ

structure Buckets where
  buckets : OrderedMap String RateBucket := ∅
  tenantBuckets : OrderedMap String RateBucket := ∅

structure Request where
  /-- The header `x-forwarded-for`. -/
  forwardedFor : Option String
  remoteAddress : Option String
  actor : Option Actor

inductive Refusal
  | tenantRateLimited (tenantId : String)
  | rateLimited
  deriving DecidableEq, Repr

def Refusal.code : Refusal → String
  | tenantRateLimited _ => "TENANT_RATE_LIMITED"
  | rateLimited => "RATE_LIMITED"

def Refusal.message : Refusal → String
  | tenantRateLimited tenantId => "Tenant " ++ tenantId ++ " rate limit exceeded"
  | rateLimited => "Too many requests"

/-- The bucket of a key at a request, before a token is taken. -/
def refill (rate now : ℚ) (bucket : Option RateBucket) : RateBucket :=
  let bucket := bucket.getD ⟨rate, now⟩
  let elapsed := (now - bucket.lastRefill) / 1000
  { tokens := min rate (bucket.tokens + elapsed * rate), lastRefill := now }

/-- The bucket after the request, and whether there was a token for it. -/
def takeToken (rate now : ℚ) (bucket : Option RateBucket) : RateBucket × Bool :=
  let bucket := refill rate now bucket
  if bucket.tokens < 1 then (bucket, false)
  else ({ bucket with tokens := bucket.tokens - 1 }, true)

/-- `actor?.tenantId`, where it is not empty. -/
def Request.tenantId (req : Request) : Option String :=
  (req.actor.map Actor.tenantId).filter (· ≠ "")

def OfTenant (tenantId : String) (req : Request) : Prop := req.tenantId = some tenantId

instance (tenantId : String) : DecidablePred (OfTenant tenantId) :=
  fun req => inferInstanceAs (Decidable (req.tenantId = some tenantId))

def tenantKey (tenantId : String) : String := "tenant:" ++ tenantId

def Request.ip (req : Request) : String :=
  ((req.forwardedFor.bind fun header => (Text.split ',' header).head?.map Text.trim).or
    req.remoteAddress).getD "unknown"

def OfClient (ip : String) (req : Request) : Prop := req.ip = ip

instance (ip : String) : DecidablePred (OfClient ip) :=
  fun req => inferInstanceAs (Decidable (req.ip = ip))

def checkTenant (rates : Rates) (now : ℚ) (req : Request) (s : Buckets) :
    Buckets × Option Refusal :=
  if rates.rateLimitPerSecPerTenant > 0 then
    match req.tenantId with
    | some tenantId =>
      let key := tenantKey tenantId
      let taken := takeToken rates.rateLimitPerSecPerTenant now (s.tenantBuckets.get? key)
      ({ s with tenantBuckets := s.tenantBuckets.set key taken.1 },
        if taken.2 then none else some (.tenantRateLimited tenantId))
    | none => (s, none)
  else (s, none)

def checkIp (rates : Rates) (now : ℚ) (req : Request) (s : Buckets) : Buckets × Option Refusal :=
  if rates.rateLimitPerSec ≤ 0 then (s, none)
  else
    let taken := takeToken rates.rateLimitPerSec now (s.buckets.get? req.ip)
    ({ s with buckets := s.buckets.set req.ip taken.1 },
      if taken.2 then none else some .rateLimited)

/-- `none` if the request is let through; a refusal is sent with status 429 and `Retry-After: 1`. -/
def checkRateLimit (rates : Rates) (now : ℚ) (req : Request) (s : Buckets) :
    Buckets × Option Refusal :=
  match checkTenant rates now req s with
  | (s, some refusal) => (s, some refusal)
  | (s, none) => checkIp rates now req s

/-- `now - bucket.lastRefill > 60000` -/
def isIdle (now : ℚ) (bucket : RateBucket) : Bool := now - bucket.lastRefill > 60000

/-- What the timer does with an entry of `buckets`. -/
def cleanupEntry (now : ℚ) (s : Buckets) (entry : String × RateBucket) : Buckets :=
  let s := if isIdle now entry.2 then { s with buckets := s.buckets.delete entry.1 } else s
  if isIdle now entry.2 then { s with tenantBuckets := s.tenantBuckets.delete entry.1 } else s

def cleanup (now : ℚ) (s : Buckets) : Buckets := s.buckets.entries.foldl (cleanupEntry now) s

/-! ### Requests over time -/

/-- A request that was checked at a time. -/
structure Entry where
  request : Request
  time : ℚ
  accepted : Bool

/-- The number of requests from `start` to `stop` that satisfy `p` and were let through. -/
def acceptedBetween (p : Request → Prop) [DecidablePred p] (start stop : ℚ) (log : List Entry) :
    Nat :=
  log.countP fun e => p e.request ∧ e.accepted ∧ start ≤ e.time ∧ e.time ≤ stop

/-- No request that satisfies `p` was made in the last `idle` milliseconds before `now`. -/
def IdleFor (p : Request → Prop) (idle now : ℚ) (log : List Entry) : Prop :=
  ∀ e ∈ log, p e.request → e.time + idle ≤ now

/-- The buckets at a time, and the requests so far. -/
structure History where
  now : ℚ
  buckets : Buckets := {}
  log : List Entry := []

/-- Some time passes, then something happens. -/
inductive Event
  | request (wait : NNRat) (req : Request)
  | cleanup (wait : NNRat)

namespace History

def init (start : ℚ) : History := { now := start }

variable (rates : Rates)

def request (s : History) (wait : NNRat) (req : Request) : History :=
  let now := s.now + wait
  let checked := checkRateLimit rates now req s.buckets
  { now
    buckets := checked.1
    log := s.log ++ [⟨req, now, checked.2.isNone⟩] }

def step (s : History) : Event → History
  | .request wait req => s.request rates wait req
  | .cleanup wait =>
    let now := s.now + wait
    { s with now, buckets := cleanup now s.buckets }

end History

end RateLimit

end KirkForge

/-!
## What a token bucket lets through

In every interval of `T` seconds at most `r * (1 + T)` requests of a client, and of a tenant, are
let through. A bucket holds as many tokens as come in during a second, and a request takes a whole
one: with a limit of less than one request a second there is never a whole token, and every request
is refused.

The timer goes through the buckets of the clients and throws away the idle ones. Of the tenants it
throws away the buckets whose key is that of an idle client. A client chooses its key by a header,
so it can have the bucket of a tenant thrown away that is in use; other buckets of tenants are never
thrown away. Where the buckets thrown away are the idle ones, the limits hold in every run.
-/

namespace KirkForge.RateLimit

variable {rates : Rates} {rate now now' start stop : ℚ} {bucket : Option RateBucket}
  {b : RateBucket} {s : Buckets} {req : Request} {log : List Entry} {e : Entry} {key : String}
  {p : Request → Prop} [DecidablePred p]

/-! ### One bucket -/

/-- A bucket of `rate` tokens into which `rate` tokens come each second. -/
theorem takeToken_eq : takeToken rate now bucket =
    TokenBucket.take rate (rate / 1000) now bucket := by
  have htokens : (refill rate now bucket).tokens =
      TokenBucket.level rate (rate / 1000) now bucket := by
    cases bucket with
    | none =>
      show min rate (rate + (now - now) / 1000 * rate) = rate
      rw [sub_self, zero_div, zero_mul, add_zero, min_self]
    | some b =>
      show min rate (b.tokens + (now - b.lastRefill) / 1000 * rate) =
        min rate (b.tokens + (now - b.lastRefill) * (rate / 1000))
      rw [div_mul_eq_mul_div, mul_div_assoc]
  have hbucket : refill rate now bucket =
      ⟨TokenBucket.level rate (rate / 1000) now bucket, now⟩ := by
    rw [← htokens]
    rfl
  rw [takeToken, TokenBucket.take, hbucket]

/-- The tokens of a key. -/
def level (rate now : ℚ) (bucket : Option RateBucket) : ℚ :=
  TokenBucket.level rate (rate / 1000) now bucket

theorem takeToken_accepts : (takeToken rate now bucket).2 = true ↔ 1 ≤ level rate now bucket := by
  rw [takeToken_eq, TokenBucket.take_accepts, level]

theorem level_takeToken : level rate now (some (takeToken rate now bucket).1) =
    level rate now bucket - if (takeToken rate now bucket).2 then 1 else 0 := by
  rw [takeToken_eq, level, TokenBucket.level_take, level]

/-- The bucket of the requests that satisfy `p` stands as their log says. -/
structure Tracks (p : Request → Prop) [DecidablePred p] (rate now : ℚ) (log : List Entry)
    (bucket : Option RateBucket) : Prop where
  sound : ∀ b ∈ bucket, b.Sound now
  recent : ∀ b ∈ bucket, ∃ e ∈ log, p e.request ∧ e.time = b.lastRefill
  bounded : ∀ start stop, start ≤ stop →
    TokenBucket.Bounded rate (rate / 1000) start stop now (level rate now bucket)
      (acceptedBetween p start stop log)

theorem perMilli_nonneg (hrate : 0 < rate) : 0 ≤ rate / 1000 := div_nonneg hrate.le (by norm_num)

theorem Tracks.init (hrate : 0 < rate) : Tracks p rate now [] none where
  sound _ hb := nomatch hb
  recent _ hb := nomatch hb
  bounded _ _ hinterval :=
    .zero hrate.le (perMilli_nonneg hrate) hinterval TokenBucket.level_le

/-- Time passes. -/
theorem Tracks.later (h : Tracks p rate now log bucket) (hrate : 0 < rate) (hle : now ≤ now') :
    Tracks p rate now' log bucket where
  sound b hb := (h.sound b hb).mono hle
  recent := h.recent
  bounded start stop hinterval :=
    (h.bounded start stop hinterval).later hle (perMilli_nonneg hrate)
      (TokenBucket.level_later (perMilli_nonneg hrate) hle) TokenBucket.level_le

omit [DecidablePred p] in
theorem exists_mem_append {P : Entry → Prop} (h : ∃ e ∈ log, P e) : ∃ e' ∈ log ++ [e], P e' := by
  obtain ⟨e', he', hP⟩ := h
  exact ⟨e', List.mem_append_left _ he', hP⟩

/-- A request that takes no token from the bucket is not counted. -/
theorem Tracks.other (h : Tracks p rate now log bucket)
    (he : p e.request → e.accepted = false) : Tracks p rate now (log ++ [e]) bucket where
  sound := h.sound
  recent b hb := exists_mem_append (h.recent b hb)
  bounded start stop hinterval := by
    have hcount : acceptedBetween p start stop (log ++ [e]) = acceptedBetween p start stop log := by
      rw [acceptedBetween, List.countP_append, List.countP_singleton, if_neg]
      · rfl
      · simp only [decide_eq_true_eq, not_and]
        intro hp haccepted
        rw [he hp] at haccepted
        cases haccepted
    rw [hcount]
    exact h.bounded start stop hinterval

/-- A request takes a token, or is refused. -/
theorem Tracks.take (h : Tracks p rate now log bucket) (hrate : 0 < rate) (htime : e.time = now)
    (hp : p e.request) (haccepted : e.accepted = true → (takeToken rate now bucket).2 = true) :
    Tracks p rate now (log ++ [e]) (some (takeToken rate now bucket).1) where
  sound b hb := by
    cases hb
    rw [takeToken_eq]
    exact TokenBucket.sound_take hrate.le (perMilli_nonneg hrate) h.sound
  recent b hb := by
    cases hb
    refine ⟨e, List.mem_append_right _ (List.mem_singleton_self e), hp, ?_⟩
    rw [htime, takeToken_eq, TokenBucket.lastRefill_take]
  bounded start stop hinterval := by
    have hbounded := h.bounded start stop hinterval
    rw [acceptedBetween, List.countP_append, List.countP_singleton, ← acceptedBetween,
      level_takeToken]
    by_cases hcounted : e.accepted = true ∧ start ≤ e.time ∧ e.time ≤ stop
    · rw [if_pos (decide_eq_true ⟨hp, hcounted⟩)]
      obtain ⟨hyes, hstart, hstop⟩ := hcounted
      rw [if_pos (haccepted hyes)]
      rw [htime] at hstart hstop
      exact hbounded.take hstart hstop (perMilli_nonneg hrate)
        (takeToken_accepts.mp (haccepted hyes))
    · have hnot : decide (p e.request ∧ e.accepted = true ∧ start ≤ e.time ∧ e.time ≤ stop) ≠
          true := fun hyes => hcounted (of_decide_eq_true hyes).2
      rw [if_neg hnot, Nat.add_zero]
      refine hbounded.level_le (sub_le_self _ ?_)
      split
      · exact zero_le_one
      · exact le_rfl

/-- A bucket that is idle is full, and no loss. -/
theorem Tracks.forget (h : Tracks p rate now log (some b)) (hrate : 0 < rate)
    (hidle : isIdle now b = true) : Tracks p rate now log none where
  sound _ hb := nomatch hb
  recent _ hb := nomatch hb
  bounded start stop hinterval := by
    have hlong : 60000 < now - b.lastRefill := of_decide_eq_true hidle
    have hfull : rate ≤ (now - b.lastRefill) * (rate / 1000) := by
      have hthousand : (1000 : ℚ) * (rate / 1000) = rate := by ring
      calc rate = 1000 * (rate / 1000) := hthousand.symm
        _ ≤ (now - b.lastRefill) * (rate / 1000) :=
          mul_le_mul_of_nonneg_right (by linarith) (perMilli_nonneg hrate)
    have hlevel : level rate now (some b) = level rate now none :=
      TokenBucket.level_eq_capacity (h.sound b rfl) hfull
    rw [← hlevel]
    exact h.bounded start stop hinterval

/-- A bucket of at least one token is full after a second in which it was not used. -/
theorem Tracks.accepts (h : Tracks p rate now log bucket) (hrate : 1 ≤ rate)
    (hidle : IdleFor p 1000 now log) :
    (takeToken rate now bucket).2 = true := by
  rw [takeToken_accepts]
  cases bucket with
  | none => exact hrate
  | some b =>
    obtain ⟨e, he, hp, htime⟩ := h.recent b rfl
    have hsecond : 1000 ≤ now - b.lastRefill := by
      have htime' := hidle e he hp
      rw [htime] at htime'
      linarith
    have hfull : rate ≤ (now - b.lastRefill) * (rate / 1000) := by
      have hpos : 0 < rate := zero_lt_one.trans_le hrate
      calc rate = 1000 * (rate / 1000) := by ring
        _ ≤ (now - b.lastRefill) * (rate / 1000) :=
          mul_le_mul_of_nonneg_right hsecond (perMilli_nonneg hpos)
    have hlevel : level rate now (some b) = rate :=
      TokenBucket.level_eq_capacity (h.sound b rfl) hfull
    rw [hlevel]
    exact hrate

/-- Where the limit is less than one request a second, there is never a token. -/
theorem takeToken_refuses (hrate : rate < 1) : (takeToken rate now bucket).2 = false := by
  rw [Bool.eq_false_iff, ne_eq, takeToken_accepts, not_le]
  exact TokenBucket.level_le.trans_lt hrate

/-! ### One request -/

variable {tenantId ip : String}

theorem isNone_ite {allowed : Bool} {refusal : Refusal} :
    (if allowed then none else some refusal : Option Refusal).isNone = true ↔ allowed = true := by
  cases allowed <;> simp

theorem buckets_checkTenant : (checkTenant rates now req s).1.buckets = s.buckets := by
  rw [checkTenant]
  split
  · cases req.tenantId <;> rfl
  · rfl

theorem tenantBuckets_checkIp : (checkIp rates now req s).1.tenantBuckets = s.tenantBuckets := by
  rw [checkIp]
  split <;> rfl

theorem tenantKey_inj {tenantId' : String} :
    tenantKey tenantId = tenantKey tenantId' ↔ tenantId = tenantId' :=
  String.append_right_inj "tenant:"

theorem checkTenant_of_limited (hrate : 0 < rates.rateLimitPerSecPerTenant)
    (htenant : req.tenantId = some tenantId) : checkTenant rates now req s =
      let taken := takeToken rates.rateLimitPerSecPerTenant now
        (s.tenantBuckets.get? (tenantKey tenantId))
      ({ s with tenantBuckets := s.tenantBuckets.set (tenantKey tenantId) taken.1 },
        if taken.2 then none else some (.tenantRateLimited tenantId)) := by
  rw [checkTenant, if_pos hrate, htenant]

theorem checkTenant_of_no_tenant (htenant : req.tenantId = none) :
    checkTenant rates now req s = (s, none) := by
  rw [checkTenant, htenant, ite_self]

theorem checkTenant_of_off (hrate : ¬0 < rates.rateLimitPerSecPerTenant) :
    checkTenant rates now req s = (s, none) :=
  if_neg hrate

theorem checkIp_of_limited (hrate : 0 < rates.rateLimitPerSec) : checkIp rates now req s =
    let taken := takeToken rates.rateLimitPerSec now (s.buckets.get? req.ip)
    ({ s with buckets := s.buckets.set req.ip taken.1 },
      if taken.2 then none else some .rateLimited) :=
  if_neg (not_le.mpr hrate)

/-- The buckets of the tenants after a request are those that the check of the tenant leaves. -/
theorem tenantBuckets_checkRateLimit : (checkRateLimit rates now req s).1.tenantBuckets =
    (checkTenant rates now req s).1.tenantBuckets := by
  rw [checkRateLimit]
  rcases checkTenant rates now req s with ⟨s', _ | refusal⟩
  · exact tenantBuckets_checkIp
  · rfl

theorem checkRateLimit_of_tenant_refused {refusal : Refusal}
    (h : (checkTenant rates now req s).2 = some refusal) : checkRateLimit rates now req s =
      ((checkTenant rates now req s).1, some refusal) := by
  rw [checkRateLimit]
  generalize checkTenant rates now req s = checked at h
  obtain ⟨s', result⟩ := checked
  cases h
  rfl

theorem checkRateLimit_of_tenant_accepted (h : (checkTenant rates now req s).2 = none) :
    checkRateLimit rates now req s = checkIp rates now req (checkTenant rates now req s).1 := by
  rw [checkRateLimit]
  generalize checkTenant rates now req s = checked at h
  obtain ⟨s', result⟩ := checked
  cases h
  rfl

/-! ### The buckets of all clients and tenants -/

/-- The bucket of every client and tenant stands as the log says. -/
structure Tracked (rates : Rates) (now : ℚ) (log : List Entry) (s : Buckets) : Prop where
  clients : 0 < rates.rateLimitPerSec → ∀ ip,
    Tracks (OfClient ip) rates.rateLimitPerSec now log (s.buckets.get? ip)
  tenants : 0 < rates.rateLimitPerSecPerTenant → ∀ tenantId,
    Tracks (OfTenant tenantId) rates.rateLimitPerSecPerTenant now log
      (s.tenantBuckets.get? (tenantKey tenantId))

theorem Tracked.init : Tracked rates now [] {} :=
  ⟨fun hrate _ => .init hrate, fun hrate _ => .init hrate⟩

theorem Tracked.later (h : Tracked rates now log s) (hle : now ≤ now') :
    Tracked rates now' log s :=
  ⟨fun hrate ip => (h.clients hrate ip).later hrate hle,
    fun hrate tenantId => (h.tenants hrate tenantId).later hrate hle⟩

theorem Tracked.tenants_request (h : Tracked rates now log s)
    (hrate : 0 < rates.rateLimitPerSecPerTenant) (tenantId : String) :
    Tracks (OfTenant tenantId) rates.rateLimitPerSecPerTenant now
      (log ++ [⟨req, now, (checkRateLimit rates now req s).2.isNone⟩])
      ((checkRateLimit rates now req s).1.tenantBuckets.get? (tenantKey tenantId)) := by
  have htracks := h.tenants hrate tenantId
  rw [tenantBuckets_checkRateLimit]
  cases htenant : req.tenantId with
  | none =>
    rw [checkTenant_of_no_tenant htenant]
    refine htracks.other fun hof => ?_
    rw [OfTenant, htenant] at hof
    cases hof
  | some requesting =>
    have hcheck : checkTenant rates now req s = _ := checkTenant_of_limited hrate htenant
    by_cases hsame : requesting = tenantId
    · subst hsame
      rw [hcheck, OrderedMap.get?_set_self]
      refine htracks.take hrate rfl htenant fun haccepted => ?_
      by_contra hrefused
      have hrefusal : (checkTenant rates now req s).2 = some (.tenantRateLimited requesting) := by
        rw [hcheck]
        exact if_neg hrefused
      rw [checkRateLimit_of_tenant_refused hrefusal] at haccepted
      cases haccepted
    · rw [hcheck, OrderedMap.get?_set_of_ne _ (tenantKey_inj.not.mpr hsame)]
      refine htracks.other fun hof => absurd ?_ hsame
      rw [OfTenant, htenant] at hof
      exact Option.some.inj hof

theorem Tracked.clients_request (h : Tracked rates now log s) (hrate : 0 < rates.rateLimitPerSec)
    (ip : String) : Tracks (OfClient ip) rates.rateLimitPerSec now
      (log ++ [⟨req, now, (checkRateLimit rates now req s).2.isNone⟩])
      ((checkRateLimit rates now req s).1.buckets.get? ip) := by
  have htracks := h.clients hrate ip
  cases hresult : (checkTenant rates now req s).2 with
  | some refusal =>
    rw [checkRateLimit_of_tenant_refused hresult, buckets_checkTenant]
    exact htracks.other fun _ => rfl
  | none =>
    rw [checkRateLimit_of_tenant_accepted hresult, checkIp_of_limited hrate, buckets_checkTenant]
    by_cases hsame : req.ip = ip
    · subst hsame
      show Tracks _ _ _ _ ((s.buckets.set _ _).get? _)
      rw [OrderedMap.get?_set_self]
      exact htracks.take hrate rfl rfl fun haccepted => isNone_ite.mp haccepted
    · show Tracks _ _ _ _ ((s.buckets.set _ _).get? _)
      rw [OrderedMap.get?_set_of_ne _ hsame]
      exact htracks.other fun hof => absurd hof hsame

theorem Tracked.request (h : Tracked rates now log s) : Tracked rates now
    (log ++ [⟨req, now, (checkRateLimit rates now req s).2.isNone⟩])
    (checkRateLimit rates now req s).1 :=
  ⟨h.clients_request, h.tenants_request⟩

/-- A request whose client and tenant have made none for a second is let through. -/
theorem Tracked.accepts (h : Tracked rates now log s)
    (hrate : 0 < rates.rateLimitPerSec → 1 ≤ rates.rateLimitPerSec)
    (htenantRate : 0 < rates.rateLimitPerSecPerTenant → 1 ≤ rates.rateLimitPerSecPerTenant)
    (hclient : 0 < rates.rateLimitPerSec → IdleFor (OfClient req.ip) 1000 now log)
    (htenant : 0 < rates.rateLimitPerSecPerTenant → ∀ tenantId ∈ req.tenantId,
      IdleFor (OfTenant tenantId) 1000 now log) : (checkRateLimit rates now req s).2 = none := by
  have hfirst : (checkTenant rates now req s).2 = none := by
    by_cases hlimited : 0 < rates.rateLimitPerSecPerTenant
    · cases hid : req.tenantId with
      | none => rw [checkTenant_of_no_tenant hid]
      | some tenantId =>
        rw [checkTenant_of_limited hlimited hid]
        exact if_pos ((h.tenants hlimited tenantId).accepts (htenantRate hlimited)
          (htenant hlimited tenantId hid))
    · rw [checkTenant_of_off hlimited]
  rw [checkRateLimit_of_tenant_accepted hfirst]
  by_cases hlimited : 0 < rates.rateLimitPerSec
  · rw [checkIp_of_limited hlimited, buckets_checkTenant]
    exact if_pos ((h.clients hlimited req.ip).accepts (hrate hlimited) (hclient hlimited))
  · rw [checkIp, if_pos (not_lt.mp hlimited)]

/-! ### Requests -/

namespace History

variable {h : History} {wait : NNRat}

theorem le_add_wait (h : History) (wait : NNRat) : h.now ≤ h.now + wait :=
  le_add_of_nonneg_right wait.2

/-- The buckets stand as the log says. -/
def Tracked (rates : Rates) (h : History) : Prop := RateLimit.Tracked rates h.now h.log h.buckets

theorem Tracked.request (hh : h.Tracked rates) (wait : NNRat) (req : Request) :
    (h.request rates wait req).Tracked rates :=
  (hh.later (h.le_add_wait wait)).request

/-- No interval of `T` seconds has more accepted requests than the limits allow. -/
structure WithinLimits (rates : Rates) (h : History) : Prop where
  clients : 0 < rates.rateLimitPerSec → ∀ ip start T, 0 ≤ T →
    acceptedBetween (OfClient ip) start (start + 1000 * T) h.log ≤
      rates.rateLimitPerSec * (1 + T)
  tenants : 0 < rates.rateLimitPerSecPerTenant → ∀ tenantId start T, 0 ≤ T →
    acceptedBetween (OfTenant tenantId) start (start + 1000 * T) h.log ≤
      rates.rateLimitPerSecPerTenant * (1 + T)

theorem le_of_tracks {T : ℚ} (h : Tracks p rate now log bucket) (hT : 0 ≤ T) (start : ℚ) :
    acceptedBetween p start (start + 1000 * T) log ≤ rate * (1 + T) := by
  have hinterval : start ≤ start + 1000 * T := le_add_of_nonneg_right (by linarith)
  calc (acceptedBetween p start (start + 1000 * T) log : ℚ)
      ≤ rate + (start + 1000 * T - start) * (rate / 1000) := (h.bounded _ _ hinterval).total
    _ = rate * (1 + T) := by ring

theorem Tracked.withinLimits (hh : h.Tracked rates) : h.WithinLimits rates where
  clients hrate ip start _ hT := le_of_tracks (hh.clients hrate ip) hT start
  tenants hrate tenantId start _ hT := le_of_tracks (hh.tenants hrate tenantId) hT start

/-- The history of a server to which requests were made. -/
def ofRequests (rates : Rates) (start : ℚ) (requests : List (NNRat × Request)) : History :=
  Run.run (fun h r => h.request rates r.1 r.2) (init start) requests

theorem tracked_ofRequests (start : ℚ) (requests : List (NNRat × Request)) :
    (ofRequests rates start requests).Tracked rates :=
  Run.run_invariant (fun _ r hh => hh.request r.1 r.2) requests RateLimit.Tracked.init

/-- A request is let through if its client, and its tenant, have made none for `idle` milliseconds,
as far as they are limited. -/
def AcceptsAfter (rates : Rates) (idle : ℚ) (h : History) : Prop :=
  ∀ (wait : NNRat) (req : Request),
    (0 < rates.rateLimitPerSec → IdleFor (OfClient req.ip) idle (h.now + wait) h.log) →
    (0 < rates.rateLimitPerSecPerTenant → ∀ tenantId ∈ req.tenantId,
      IdleFor (OfTenant tenantId) idle (h.now + wait) h.log) →
    (checkRateLimit rates (h.now + wait) req h.buckets).2 = none

/-- The limits hold after every sequence of requests, and who is idle for long enough is let
through. -/
structure BucketsWork (rates : Rates) : Prop where
  bounds : ∀ start requests, (ofRequests rates start requests).WithinLimits rates
  live : ∃ idle, ∀ start requests, (ofRequests rates start requests).AcceptsAfter rates idle

/-- A limit of less than one request a second refuses all requests to which it applies. -/
theorem refuses_of_lt_one {rates : Rates} (hrate : 0 < rates.rateLimitPerSec)
    (hlt : rates.rateLimitPerSec < 1) : (checkRateLimit rates now req s).2 ≠ none := by
  cases hresult : (checkTenant rates now req s).2 with
  | some refusal =>
    rw [checkRateLimit_of_tenant_refused hresult]
    exact Option.some_ne_none refusal
  | none =>
    rw [checkRateLimit_of_tenant_accepted hresult, checkIp_of_limited hrate]
    show (if (takeToken _ _ _).2 = true then none else some Refusal.rateLimited) ≠ none
    rw [takeToken_refuses hlt]
    exact Option.some_ne_none _

theorem refuses_tenant_of_lt_one {rates : Rates} (hrate : 0 < rates.rateLimitPerSecPerTenant)
    (hlt : rates.rateLimitPerSecPerTenant < 1) (htenant : req.tenantId = some tenantId) :
    (checkRateLimit rates now req s).2 ≠ none := by
  have hrefusal : (checkTenant rates now req s).2 = some (.tenantRateLimited tenantId) := by
    rw [checkTenant_of_limited hrate htenant]
    exact if_neg (Bool.eq_false_iff.mp (takeToken_refuses hlt))
  rw [checkRateLimit_of_tenant_refused hrefusal]
  exact Option.some_ne_none _

/-- A request without headers of a tenant. -/
def requestOf (tenantId : String) : Request where
  forwardedFor := none
  remoteAddress := none
  actor := some ⟨"actor", .viewer, tenantId, .apiKey, ""⟩

/-- The limits hold whatever they are; who is idle is let through exactly where no limit that is on
is below one request a second. -/
theorem bucketsWork_iff (rates : Rates) : BucketsWork rates ↔
    (0 < rates.rateLimitPerSec → 1 ≤ rates.rateLimitPerSec) ∧
      (0 < rates.rateLimitPerSecPerTenant → 1 ≤ rates.rateLimitPerSecPerTenant) := by
  constructor
  · rintro ⟨-, idle, hlive⟩
    have haccepts (req : Request) : (checkRateLimit rates (0 + (0 : NNRat)) req {}).2 = none :=
      hlive 0 [] 0 req (fun _ e he => absurd he List.not_mem_nil)
        (fun _ _ _ e he => absurd he List.not_mem_nil)
    refine ⟨fun hrate => ?_, fun hrate => ?_⟩
    · exact not_lt.mp fun hlt => refuses_of_lt_one hrate hlt (haccepts (requestOf "a"))
    · exact not_lt.mp fun hlt => refuses_tenant_of_lt_one hrate hlt rfl (haccepts (requestOf "a"))
  · rintro ⟨hrate, htenantRate⟩
    refine ⟨fun start requests => (tracked_ofRequests start requests).withinLimits, 1000,
      fun start requests wait req hclient htenant => ?_⟩
    have htracked : (ofRequests rates start requests).Tracked rates :=
      tracked_ofRequests start requests
    exact (htracked.later (le_add_wait _ wait)).accepts hrate htenantRate hclient htenant

/-- With a limit of one request in two seconds, a client is refused however long it waits after its
first request. -/
theorem half_rate_refuses : ¬BucketsWork ⟨1 / 2, 0⟩ := by
  rintro ⟨-, idle, hlive⟩
  have hidle : (0 : ℚ) ≤ max idle 0 := le_max_right ..
  refine refuses_of_lt_one (by norm_num) (by norm_num)
    (hlive 0 [(0, requestOf "a")] ⟨max idle 0, hidle⟩ (requestOf "a") (fun _ e he _ => ?_)
      fun h => absurd h (lt_irrefl _))
  rw [List.mem_singleton.mp he]
  show 0 + ((0 : NNRat) : ℚ) + idle ≤ 0 + ((0 : NNRat) : ℚ) + max idle 0
  rw [NNRat.cast_zero]
  linarith [le_max_left idle 0]

end History

/-! ### Cleanups -/

/-- The bucket of a key after a cleanup that throws away the idle buckets and no others. -/
def keepBusy (now : ℚ) (bucket : Option RateBucket) : Option RateBucket :=
  bucket.filter fun b => !isIdle now b

theorem keepBusy_of_idle (h : isIdle now b = true) : keepBusy now (some b) = none := by
  simp [keepBusy, Option.filter, h]

theorem keepBusy_of_busy (h : isIdle now b = false) : keepBusy now (some b) = some b := by
  simp [keepBusy, Option.filter, h]

/-- The cleanup throws away the idle buckets and changes nothing else. -/
structure CleansIdle (now : ℚ) (s : Buckets) : Prop where
  clients : ∀ key, (cleanup now s).buckets.get? key = keepBusy now (s.buckets.get? key)
  tenants : ∀ key, (cleanup now s).tenantBuckets.get? key = keepBusy now (s.tenantBuckets.get? key)

/-- The buckets of tenants that are idle are those with the key of an idle client. -/
def IdleTogether (now : ℚ) (s : Buckets) : Prop :=
  ∀ key, ∀ b ∈ s.tenantBuckets.get? key,
    isIdle now b = true ↔ ∃ c ∈ s.buckets.get? key, isIdle now c = true

theorem buckets_cleanup (key : String) :
    (cleanup now s).buckets.get? key = keepBusy now (s.buckets.get? key) := by
  have hentry (t : Buckets) (e : String × RateBucket) (key : String) :
      (cleanupEntry now t e).buckets.get? key =
        if e.1 = key then (if isIdle now e.2 then none else t.buckets.get? key)
        else t.buckets.get? key := by
    cases hidle : isIdle now e.2
    · simp [cleanupEntry, hidle]
    · simp [cleanupEntry, hidle, OrderedMap.get?_delete]
  have hfold : (cleanup now s).buckets.get? key = (s.buckets.get? key).elim (s.buckets.get? key)
      fun b => if isIdle now b then none else s.buckets.get? key :=
    OrderedMap.foldl_observe (o := fun key t => t.buckets.get? key)
      (g := fun found b => if isIdle now b then none else found) hentry s.buckets.nodup s key
  rw [hfold]
  cases s.buckets.get? key with
  | none => rfl
  | some b =>
    cases hidle : isIdle now b with
    | true => rw [keepBusy_of_idle hidle, Option.elim_some, if_pos hidle]
    | false => rw [keepBusy_of_busy hidle, Option.elim_some, if_neg (Bool.eq_false_iff.mp hidle)]

/-- Some client whose key this is has an idle bucket. -/
def idleClient (now : ℚ) (s : Buckets) (key : String) : Bool :=
  (s.buckets.get? key).any (isIdle now)

theorem tenantBuckets_cleanup (key : String) : (cleanup now s).tenantBuckets.get? key =
    if idleClient now s key then none else s.tenantBuckets.get? key := by
  have hentry (t : Buckets) (e : String × RateBucket) (key : String) :
      (cleanupEntry now t e).tenantBuckets.get? key =
        if e.1 = key then (if isIdle now e.2 then none else t.tenantBuckets.get? key)
        else t.tenantBuckets.get? key := by
    cases hidle : isIdle now e.2
    · simp [cleanupEntry, hidle]
    · simp [cleanupEntry, hidle, OrderedMap.get?_delete]
  have hfold : (cleanup now s).tenantBuckets.get? key =
      (s.buckets.get? key).elim (s.tenantBuckets.get? key)
        fun b => if isIdle now b then none else s.tenantBuckets.get? key :=
    OrderedMap.foldl_observe (o := fun key t => t.tenantBuckets.get? key)
      (g := fun found b => if isIdle now b then none else found) hentry s.buckets.nodup s key
  rw [hfold, idleClient]
  cases s.buckets.get? key <;> rfl

/-- The cleanup is right exactly where the buckets that are idle have the same keys. -/
theorem cleansIdle_iff : CleansIdle now s ↔ IdleTogether now s := by
  have hkey (key : String) : (cleanup now s).tenantBuckets.get? key =
      keepBusy now (s.tenantBuckets.get? key) ↔ ∀ b ∈ s.tenantBuckets.get? key,
        isIdle now b = true ↔ ∃ c ∈ s.buckets.get? key, isIdle now c = true := by
    have hclient : (∃ c ∈ s.buckets.get? key, isIdle now c = true) ↔
        idleClient now s key = true := by
      rw [idleClient, Option.any_eq_true]
      rfl
    rw [tenantBuckets_cleanup, hclient]
    cases s.tenantBuckets.get? key with
    | none => simp [keepBusy]
    | some b =>
      cases hidle : isIdle now b with
      | true =>
        rw [keepBusy_of_idle hidle]
        cases idleClient now s key <;> simp [hidle]
      | false =>
        rw [keepBusy_of_busy hidle]
        cases idleClient now s key <;> simp [hidle]
  constructor
  · intro h key
    exact (hkey key).mp (h.tenants key)
  · intro h
    exact ⟨buckets_cleanup, fun key => (hkey key).mpr (h key)⟩

/-- Throwing away idle buckets keeps the limits. -/
theorem Tracks.keepBusy {p : Request → Prop} [DecidablePred p] {rate : ℚ}
    {bucket : Option RateBucket} (h : Tracks p rate now log bucket) (hrate : 0 < rate) :
    Tracks p rate now log (keepBusy now bucket) := by
  cases bucket with
  | none => exact h
  | some b =>
    cases hidle : isIdle now b with
    | true =>
      rw [keepBusy_of_idle hidle]
      exact h.forget hrate hidle
    | false => rwa [keepBusy_of_busy hidle]

theorem Tracked.cleanup (h : Tracked rates now log s) (hclean : CleansIdle now s) :
    Tracked rates now log (cleanup now s) where
  clients hrate ip := by
    rw [hclean.clients]
    exact (h.clients hrate ip).keepBusy hrate
  tenants hrate tenantId := by
    rw [hclean.tenants]
    exact (h.tenants hrate tenantId).keepBusy hrate

namespace History

/-- If the event is a cleanup, it throws away the idle buckets and changes nothing else. -/
def CleansIdleAt (h : History) : Event → Prop
  | .request _ _ => True
  | .cleanup wait => CleansIdle (h.now + wait) h.buckets

/-- If the event is a cleanup, the buckets of tenants that are idle are those with the key of an
idle client. -/
def IdleTogetherAt (h : History) : Event → Prop
  | .request _ _ => True
  | .cleanup wait => IdleTogether (h.now + wait) h.buckets

theorem cleansIdleAt_iff {h : History} {event : Event} :
    h.CleansIdleAt event ↔ h.IdleTogetherAt event := by
  cases event with
  | request => exact .rfl
  | cleanup wait => exact cleansIdle_iff

theorem Tracked.step {h : History} (hh : h.Tracked rates) {event : Event}
    (hclean : h.CleansIdleAt event) : (h.step rates event).Tracked rates := by
  cases event with
  | request wait req => exact hh.request wait req
  | cleanup wait => exact (hh.later (h.le_add_wait wait)).cleanup hclean

/-- Every cleanup of the run throws away the idle buckets and no others, and no limit is
exceeded. -/
def CleanupSafe (rates : Rates) (start : ℚ) (events : List Event) : Prop :=
  Run.AllSteps (step rates) CleansIdleAt (init start) events ∧
    Run.AllStates (step rates) (WithinLimits rates) (init start) events

/-- In a run of requests and cleanups the cleanups are right, and the limits hold, exactly if at
each cleanup the idle buckets of tenants are those with the key of an idle client. -/
theorem cleanupSafe_iff (rates : Rates) (start : ℚ) (events : List Event) :
    CleanupSafe rates start events ↔
      Run.AllSteps (step rates) IdleTogetherAt (init start) events := by
  have hmono {ok ok' : History → Event → Prop} (hok : ∀ h e, ok h e → ok' h e)
      (hsteps : Run.AllSteps (step rates) ok (init start) events) :
      Run.AllSteps (step rates) ok' (init start) events :=
    hsteps.mono (I := fun _ => True) (fun _ _ _ => trivial) (fun h e _ => hok h e) trivial
  constructor
  · rintro ⟨hsteps, -⟩
    exact hmono (fun _ _ => cleansIdleAt_iff.mp) hsteps
  · intro hsteps
    have hclean := hmono (fun _ _ => cleansIdleAt_iff.mpr) hsteps
    have htracked : Run.AllStates (step rates) (Tracked rates) (init start) events :=
      Run.allStates_of_invariant (fun _ _ hh hok => hh.step hok) RateLimit.Tracked.init hclean
    exact ⟨hclean, htracked.mono fun _ hh => hh.withinLimits⟩

/-- A request of a tenant's actor from an address. -/
def requestFrom (forwardedFor tenantId : String) : Request :=
  { requestOf tenantId with forwardedFor := some forwardedFor }

/-- A client sends the key of a tenant as its address, and a minute later the bucket that this
tenant is using is thrown away: the tenant has two requests let through at once. Without that client
the bucket of a tenant that is idle stays. -/
theorem tenant_bucket_reset :
    ¬CleanupSafe ⟨1, 1⟩ 0 [.request 0 (requestFrom "tenant:acme" ""),
      .request 61000 (requestFrom "10.0.0.1" "acme"), .cleanup 0,
      .request 0 (requestFrom "10.0.0.2" "acme")] ∧
    ¬CleanupSafe ⟨1, 1⟩ 0 [.request 0 (requestFrom "10.0.0.1" "acme"), .cleanup 61000] := by
  constructor
  · rintro ⟨-, hstates⟩
    have hlimits := (hstates.last.tenants (by decide) "acme" 61000 0 le_rfl)
    revert hlimits
    decide +kernel
  · rintro ⟨⟨-, hclean, -⟩, -⟩
    have htenant := hclean.tenants "tenant:acme"
    revert htenant
    decide +kernel

end History

end KirkForge.RateLimit
