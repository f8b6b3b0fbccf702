import KirkForge.CoreEnterprise.Quotas
import KirkForge.Theory.Run
import Mathlib.Data.NNRat.Defs

/-!
# Rate limits

`RateLimiter` (`core-enterprise/src/quotas.ts`): for each key the times of the requests in its
window. A check counts those that are still in the window; about once a minute it throws away
the requests of all keys that are an hour old.
-/

namespace KirkForge

structure RateLimitConfig where
  maxRequests : JsNumber
  /-- The length of the window in milliseconds. -/
  windowMs : JsNumber

structure TimestampBucket where
  timestamp : ℚ
  count : Nat

structure RateLimiter where
  windows : OrderedMap String (List TimestampBucket) := ∅
  lastCleanup : ℚ := 0

namespace RateLimiter

def CLEANUP_INTERVAL_MS : ℚ := 60000

/-- `timestamp > now - windowMs` -/
def inWindow (windowMs : JsNumber) (now timestamp : ℚ) : Bool :=
  JsNumber.gt (.finite timestamp) (.finite now - windowMs)

/-- The buckets of a key that have not expired. -/
def liveBuckets (key : String) (windowMs : JsNumber) (now : ℚ) (limiter : RateLimiter) :
    List TimestampBucket :=
  ((limiter.windows.get? key).getD []).filter fun b => inWindow windowMs now b.timestamp

/-- `getCurrentCount(key, windowMs, now)` -/
def getCurrentCount (key : String) (windowMs : JsNumber) (now : ℚ) (limiter : RateLimiter) : Nat :=
  ((limiter.liveBuckets key windowMs now).map TimestampBucket.count).sum

/-- What `_cleanupStaleKeys` leaves of the buckets of a key. -/
def recentBuckets (now : ℚ) (buckets : List TimestampBucket) : Option (List TimestampBucket) :=
  let recent := buckets.filter fun b => b.timestamp > now - 3600000
  if recent = [] then none else some recent

def cleanupStaleKeys (now : ℚ) (limiter : RateLimiter) : RateLimiter :=
  { limiter with windows := limiter.windows.filterMapValues (recentBuckets now) }

/-- The error is `none` if the request is accepted. -/
def check (key : String) (config : RateLimitConfig) (now : ℚ) (limiter : RateLimiter) :
    RateLimiter × Option QuotaExceededError :=
  let buckets := limiter.liveBuckets key config.windowMs now
  let currentCount := limiter.getCurrentCount key config.windowMs now
  let limiter :=
    { limiter with
      windows :=
        if buckets = [] then limiter.windows.delete key else limiter.windows.set key buckets }
  if JsNumber.le config.maxRequests currentCount then
    (limiter, some ⟨"rate:" ++ key, .number config.maxRequests, currentCount⟩)
  else
    let limiter := { limiter with windows := limiter.windows.set key (buckets ++ [⟨now, 1⟩]) }
    if now - limiter.lastCleanup > CLEANUP_INTERVAL_MS then
      ({ limiter.cleanupStaleKeys now with lastCleanup := now }, none)
    else (limiter, none)

end RateLimiter

/-! ### Requests over time -/

/-- A request by its key and time, and whether it was accepted. -/
structure RateRequest where
  key : String
  time : ℚ
  accepted : Bool

/-- A limiter, the time of the last check, and the requests so far. -/
structure RateState where
  now : ℚ
  limiter : RateLimiter := {}
  requests : List RateRequest := []

namespace RateState

/-- A new limiter. -/
def init (start : ℚ) : RateState := { now := start }

variable (config : String → RateLimitConfig)

/-- A request for a key after some time has passed. -/
def step (s : RateState) (request : NNRat × String) : RateState :=
  let now := s.now + request.1
  let r := s.limiter.check request.2 (config request.2) now
  { now
    limiter := r.1
    requests := s.requests ++ [⟨request.2, now, r.2.isNone⟩] }

/-- The times of the requests of a key that were accepted. -/
def acceptedTimes (key : String) (s : RateState) : List ℚ :=
  (s.requests.filter fun r => r.key = key && r.accepted).map RateRequest.time

/-- The number of requests of a key that were accepted in the window that ends at `t`. -/
def acceptedIn (key : String) (windowMs : JsNumber) (t : ℚ) (s : RateState) : Nat :=
  ((s.acceptedTimes key).filter fun time => time ≤ t && RateLimiter.inWindow windowMs t time).length

end RateState

end KirkForge

/-!
## Requests in a window

No window of a key has more accepted requests than the key may have, as long as the periodic cleanup
throws away no request that is still in its window. That is so when no window is longer than an
hour.
-/

namespace KirkForge

namespace RateLimiter

/-- The buckets that are stored for a key. -/
def stored (key : String) (limiter : RateLimiter) : List TimestampBucket :=
  (limiter.windows.get? key).getD []

/-- What is in a later window and not later itself is in the earlier one. -/
theorem inWindow_mono {windowMs : JsNumber} {now now' t : ℚ} (hle : now ≤ now')
    (h : inWindow windowMs now' t = true) : inWindow windowMs now t = true := by
  cases windowMs with
  | finite w =>
    rw [inWindow, JsNumber.finite_sub, JsNumber.finite_lt_iff] at h ⊢
    exact (sub_le_sub_right hle w).trans_lt h
  | _ => exact h

/-- A number of requests: a natural number, or infinite. -/
def IsWhole (maxRequests : JsNumber) : Prop := maxRequests = .posInf ∨ ∃ n : Nat, maxRequests = n

/-- One more is allowed below a number of requests. -/
theorem le_of_not_le {maxRequests : JsNumber} (h : IsWhole maxRequests) {count n : Nat}
    (hcount : JsNumber.le maxRequests count = false) (hn : n ≤ count + 1) :
    JsNumber.le n maxRequests = true := by
  rcases h with rfl | ⟨m, rfl⟩
  · rfl
  · have hlt : (count : ℚ) < m := not_le.mp (of_decide_eq_false hcount)
    have hle : n ≤ m := hn.trans (Nat.succ_le_of_lt (Nat.cast_lt.mp hlt))
    exact decide_eq_true (Nat.cast_le.mpr hle)

theorem zero_le {maxRequests : JsNumber} (h : IsWhole maxRequests) :
    JsNumber.le (0 : Nat) maxRequests = true := by
  rcases h with rfl | ⟨m, rfl⟩
  · rfl
  · exact decide_eq_true (Nat.cast_le.mpr (Nat.zero_le m))

/-! ### The stored requests -/

variable {limiter : RateLimiter} {key key' : String} {windowMs : JsNumber} {now now' : ℚ}

theorem liveBuckets_eq (key : String) (windowMs : JsNumber) (now : ℚ) (limiter : RateLimiter) :
    limiter.liveBuckets key windowMs now =
      (limiter.stored key).filter fun b => inWindow windowMs now b.timestamp := rfl

/-- The counts of a window are its length. -/
theorem getCurrentCount_eq (h : ∀ b ∈ limiter.stored key, b.count = 1) :
    limiter.getCurrentCount key windowMs now = (limiter.liveBuckets key windowMs now).length := by
  have hone : ∀ b ∈ limiter.liveBuckets key windowMs now, b.count = 1 := fun b hb =>
    h b (List.mem_of_mem_filter hb)
  rw [getCurrentCount, List.map_congr_left hone]
  simp

/-- What is live later is live now. -/
theorem liveBuckets_later (hle : now ≤ now') :
    (limiter.liveBuckets key windowMs now).filter (fun b => inWindow windowMs now' b.timestamp) =
      limiter.liveBuckets key windowMs now' := by
  rw [liveBuckets, List.filter_filter, liveBuckets]
  refine List.filter_congr fun b _ => ?_
  rw [Bool.and_eq_left_iff_imp]
  exact inWindow_mono hle

theorem stored_cleanupStaleKeys (now : ℚ) (limiter : RateLimiter) (key : String) :
    (limiter.cleanupStaleKeys now).stored key =
      (limiter.stored key).filter fun b => b.timestamp > now - 3600000 := by
  rw [stored, cleanupStaleKeys, OrderedMap.get?_filterMapValues, stored]
  cases limiter.windows.get? key with
  | none => rfl
  | some buckets =>
    rw [Option.bind_some, recentBuckets]
    split
    · next h => rw [Option.getD_some, h]; rfl
    · rfl

theorem stored_set (limiter : RateLimiter) (q : String) (buckets : List TimestampBucket)
    (key : String) :
    { limiter with windows := limiter.windows.set q buckets }.stored key =
      if key = q then buckets else limiter.stored key := by
  rw [stored, OrderedMap.get?_set, stored]
  by_cases hk : key = q
  · rw [if_pos hk.symm, if_pos hk]
    rfl
  · rw [if_neg (Ne.symm hk), if_neg hk]

theorem stored_setOrDelete (limiter : RateLimiter) (q : String) (buckets : List TimestampBucket)
    (key : String) :
    { limiter with
        windows := if buckets = [] then limiter.windows.delete q
          else limiter.windows.set q buckets }.stored key =
      if key = q then buckets else limiter.stored key := by
  split
  · next h =>
    rw [stored, OrderedMap.get?_delete, stored, h]
    by_cases hk : key = q
    · rw [if_pos hk.symm, if_pos hk]
      rfl
    · rw [if_neg (Ne.symm hk), if_neg hk]
  · exact stored_set limiter q buckets key

/-- A check of the key finds as many requests in the window as it may have. -/
def denies (key : String) (config : RateLimitConfig) (now : ℚ) (limiter : RateLimiter) : Bool :=
  JsNumber.le config.maxRequests (limiter.getCurrentCount key config.windowMs now)

/-- The buckets of a key after a check of the key `q`, before the cleanup: those of `q` that are
live, and this request if it is accepted; those of other keys as they were. -/
def pushed (q : String) (config : RateLimitConfig) (now : ℚ) (limiter : RateLimiter)
    (key : String) : List TimestampBucket :=
  if key = q then
    limiter.liveBuckets q config.windowMs now ++
      if limiter.denies q config now then [] else [⟨now, 1⟩]
  else limiter.stored key

theorem mem_pushed {q : String} {config : RateLimitConfig} {b : TimestampBucket}
    (h : b ∈ limiter.pushed q config now key) : b ∈ limiter.stored key ∨ b = ⟨now, 1⟩ := by
  rw [pushed] at h
  split at h
  · next hk =>
    rcases List.mem_append.mp h with h | h
    · exact .inl (hk ▸ List.mem_of_mem_filter h)
    · split at h
      · exact absurd h List.not_mem_nil
      · exact .inr (List.mem_singleton.mp h)
  · exact .inl h

/-- What a check does: it may clean up if it accepts the request. -/
theorem check_spec (q : String) (config : RateLimitConfig) (now : ℚ) (limiter : RateLimiter) :
    (limiter.check q config now).2.isNone = !limiter.denies q config now ∧
      ((∀ key, (limiter.check q config now).1.stored key = limiter.pushed q config now key) ∨
        (limiter.denies q config now = false ∧ now - limiter.lastCleanup > CLEANUP_INTERVAL_MS ∧
          ∀ key, (limiter.check q config now).1.stored key =
            (limiter.pushed q config now key).filter fun b => b.timestamp > now - 3600000)) := by
  let live := limiter.liveBuckets q config.windowMs now
  let pruned : RateLimiter := { limiter with
    windows := if live = [] then limiter.windows.delete q else limiter.windows.set q live }
  let grown : RateLimiter := { pruned with windows := pruned.windows.set q (live ++ [⟨now, 1⟩]) }
  by_cases hdenied : limiter.denies q config now = true
  · obtain ⟨error, hcheck⟩ : ∃ error, limiter.check q config now = (pruned, some error) :=
      ⟨_, if_pos hdenied⟩
    rw [hcheck, hdenied]
    refine ⟨rfl, .inl fun key => ?_⟩
    rw [stored_setOrDelete, pushed, if_pos hdenied, List.append_nil]
  · have hpushed (key : String) : grown.stored key = limiter.pushed q config now key := by
      rw [stored_set, stored_setOrDelete, pushed, if_neg hdenied]
      split <;> rfl
    have hcheck : limiter.check q config now =
        if now - grown.lastCleanup > CLEANUP_INTERVAL_MS then
          ({ grown.cleanupStaleKeys now with lastCleanup := now }, none)
        else (grown, none) := if_neg hdenied
    rw [hcheck, Bool.eq_false_of_not_eq_true hdenied]
    split
    · next hclean =>
      refine ⟨rfl, .inr ⟨rfl, hclean, fun key => ?_⟩⟩
      rw [← hpushed, ← stored_cleanupStaleKeys]
      rfl
    · exact ⟨rfl, .inl hpushed⟩

end RateLimiter

open RateLimiter

namespace RateState

variable {config : String → RateLimitConfig} {s : RateState}

/-- The checks of the key have a number of requests, and if this check is accepted and cleans up,
every request that is an hour old has left the window of its key. -/
structure CleansSafely (config : String → RateLimitConfig) (s : RateState)
    (request : NNRat × String) : Prop where
  whole : IsWhole (config request.2).maxRequests
  cleanup :
    let now := s.now + request.1
    s.limiter.denies request.2 (config request.2) now = false →
    now - s.limiter.lastCleanup > CLEANUP_INTERVAL_MS →
    ∀ key, ∀ b ∈ s.limiter.stored key, b.timestamp ≤ now - 3600000 →
      inWindow (config key).windowMs now b.timestamp = false

/-- No window of an hour or less is touched by the cleanup. -/
theorem cleansSafely_of_hour {request : NNRat × String}
    (hwhole : IsWhole (config request.2).maxRequests)
    (hhour : ∀ key, ∃ w ≤ 3600000, (config key).windowMs = .finite w) :
    s.CleansSafely config request where
  whole := hwhole
  cleanup := by
    intro now _ _ key b _ hold
    obtain ⟨w, hw, hwindow⟩ := hhour key
    rw [hwindow, inWindow, JsNumber.finite_sub, Bool.eq_false_iff, ne_eq, JsNumber.finite_lt_iff,
      not_lt]
    exact hold.trans (sub_le_sub_left hw now)

/-- The limiter has the accepted requests of every window that ends now. -/
structure Counted (config : String → RateLimitConfig) (s : RateState) : Prop where
  past : ∀ key, ∀ t ∈ s.acceptedTimes key, t ≤ s.now
  live : ∀ key, (s.limiter.liveBuckets key (config key).windowMs s.now).map
      TimestampBucket.timestamp =
    (s.acceptedTimes key).filter (inWindow (config key).windowMs s.now)
  one : ∀ key, ∀ b ∈ s.limiter.stored key, b.count = 1
  whole : ∀ r ∈ s.requests, IsWhole (config r.key).maxRequests
  bounded : ∀ key, IsWhole (config key).maxRequests → ∀ t,
    JsNumber.le (s.acceptedIn key (config key).windowMs t) (config key).maxRequests = true

theorem acceptedTimes_step (s : RateState) (request : NNRat × String) (key : String) :
    (s.step config request).acceptedTimes key = s.acceptedTimes key ++
      if key = request.2 ∧ (s.limiter.check request.2 (config request.2)
        (s.now + request.1)).2.isNone then [s.now + request.1] else [] := by
  rw [acceptedTimes, acceptedTimes, step, List.filter_append, List.map_append]
  congr 1
  by_cases hk : key = request.2
  · subst hk
    cases (s.limiter.check request.2 (config request.2) (s.now + request.1)).2.isNone <;> simp
  · simp [hk, Ne.symm hk]

/-- The limiter has the accepted requests of every window that ends now or later. -/
theorem Counted.live_later (h : s.Counted config) {now : ℚ} (hle : s.now ≤ now) (key : String) :
    (s.limiter.liveBuckets key (config key).windowMs now).map TimestampBucket.timestamp =
      (s.acceptedTimes key).filter (inWindow (config key).windowMs now) := by
  have hfilter : (s.acceptedTimes key).filter (inWindow (config key).windowMs now) =
      ((s.acceptedTimes key).filter (inWindow (config key).windowMs s.now)).filter
        (inWindow (config key).windowMs now) := by
    rw [List.filter_filter]
    refine List.filter_congr fun t _ => ?_
    rw [eq_comm, Bool.and_eq_left_iff_imp]
    exact inWindow_mono hle
  rw [hfilter, ← h.live key, List.filter_map, ← liveBuckets_later hle]
  rfl

/-- A cleanup under the side condition throws away no request that is in its window. -/
theorem filter_recent {now : ℚ} {windowMs : JsNumber} {buckets : List TimestampBucket}
    (h : ∀ b ∈ buckets, b.timestamp ≤ now - 3600000 → inWindow windowMs now b.timestamp = false) :
    (buckets.filter fun b => b.timestamp > now - 3600000).filter
        (fun b => inWindow windowMs now b.timestamp) =
      buckets.filter fun b => inWindow windowMs now b.timestamp := by
  rw [List.filter_filter]
  refine List.filter_congr fun b hb => ?_
  rw [Bool.and_eq_left_iff_imp]
  intro hin
  by_contra hold
  simp only [gt_iff_lt, decide_eq_true_eq, not_lt] at hold
  cases hin.symm.trans (h b hb hold)

/-- A check leaves the requests in the window as they were, and adds this one if it is accepted. -/
theorem live_step (h : s.Counted config) {request : NNRat × String}
    (hok : s.CleansSafely config request) (key : String) :
    ((s.step config request).limiter.liveBuckets key (config key).windowMs
        (s.step config request).now).map TimestampBucket.timestamp =
      ((s.step config request).acceptedTimes key).filter
        (inWindow (config key).windowMs (s.step config request).now) := by
  obtain ⟨elapsed, q⟩ := request
  let now := s.now + elapsed
  have hle : s.now ≤ now := le_add_of_nonneg_right elapsed.2
  obtain ⟨haccepted, hstored⟩ := check_spec q (config q) now s.limiter
  have hpushed : ((s.limiter.pushed q (config q) now key).filter fun b =>
      inWindow (config key).windowMs now b.timestamp).map TimestampBucket.timestamp =
        ((s.step config (elapsed, q)).acceptedTimes key).filter
          (inWindow (config key).windowMs now) := by
    rw [acceptedTimes_step, haccepted, List.filter_append, ← h.live_later hle key, pushed]
    by_cases hk : key = q
    · subst hk
      rw [if_pos rfl, List.filter_append, List.map_append, liveBuckets_eq, List.filter_filter]
      simp only [Bool.and_self]
      congr 1
      cases hdenied : s.limiter.denies key (config key) now
      · simp only [Bool.false_eq_true, if_false, Bool.not_false, and_self, if_true,
          List.filter_cons, List.filter_nil]
        split <;> rfl
      · simp
    · simp [hk, liveBuckets_eq]
  have hlive : (s.step config (elapsed, q)).limiter.liveBuckets key (config key).windowMs now =
      (s.limiter.pushed q (config q) now key).filter fun b =>
        inWindow (config key).windowMs now b.timestamp := by
    rcases hstored with hstored | ⟨hdenied, hclean, hstored⟩
    · exact congrArg (List.filter _) (hstored key)
    · refine (congrArg (List.filter _) (hstored key)).trans (filter_recent fun b hb hold => ?_)
      rcases mem_pushed hb with hb | rfl
      · exact hok.cleanup hdenied hclean key b hb hold
      · exact absurd hold (not_le.mpr (sub_lt_self now (by norm_num)))
  exact (congrArg (List.map _) hlive).trans hpushed

/-- The windows of a key still have no more accepted requests than it may have. -/
theorem bounded_step (h : s.Counted config) (request : NNRat × String) (key : String)
    (hkey : IsWhole (config key).maxRequests) (t : ℚ) :
    JsNumber.le ((s.step config request).acceptedIn key (config key).windowMs t)
      (config key).maxRequests = true := by
  obtain ⟨elapsed, q⟩ := request
  let now := s.now + elapsed
  have hle : s.now ≤ now := le_add_of_nonneg_right elapsed.2
  rw [acceptedIn, acceptedTimes_step, List.filter_append, List.length_append]
  by_cases hnew : key = q ∧ (s.limiter.check q (config q) now).2.isNone = true
  · obtain ⟨rfl, haccepted⟩ := hnew
    rw [if_pos ⟨rfl, haccepted⟩]
    by_cases ht : now ≤ t
    · rw [(check_spec key (config key) now s.limiter).1, Bool.not_eq_true'] at haccepted
      refine le_of_not_le hkey haccepted ?_
      rw [getCurrentCount_eq (h.one key), ← List.length_map TimestampBucket.timestamp,
        h.live_later hle key]
      -- what is in the window that ends at `t` and is not this request is in the one that ends now
      refine Nat.add_le_add (List.Sublist.length_le ?_) (List.length_filter_le _ _)
      refine List.monotone_filter_right _ fun x hx => ?_
      exact inWindow_mono ht (Bool.and_eq_true_iff.mp hx).2
    · have hlater : decide (now ≤ t) = false := decide_eq_false ht
      have hnone : [now].filter (fun time => time ≤ t && inWindow (config key).windowMs t time) =
          [] := by
        simp [hlater]
      rw [hnone]
      exact h.bounded key hkey t
  · rw [if_neg hnew]
    exact h.bounded key hkey t

theorem Counted.step (h : s.Counted config) {request : NNRat × String}
    (hok : s.CleansSafely config request) : (s.step config request).Counted config where
  past key t ht := by
    have hle : s.now ≤ s.now + request.1 := le_add_of_nonneg_right request.1.2
    rw [acceptedTimes_step] at ht
    rcases List.mem_append.mp ht with ht | ht
    · exact (h.past key t ht).trans hle
    · split at ht
      · exact (List.mem_singleton.mp ht).le
      · exact absurd ht List.not_mem_nil
  live key := live_step h hok key
  one key b hb := by
    have hpushed : b ∈ s.limiter.pushed request.2 (config request.2) (s.now + request.1) key := by
      rcases (check_spec request.2 (config request.2) (s.now + request.1) s.limiter).2 with
        hstored | ⟨-, -, hstored⟩
      · exact hstored key ▸ hb
      · exact List.mem_of_mem_filter (hstored key ▸ hb)
    rcases mem_pushed hpushed with hb | rfl
    · exact h.one key b hb
    · rfl
  whole r hr := by
    rcases List.mem_append.mp hr with hr | hr
    · exact h.whole r hr
    · rw [List.mem_singleton.mp hr]
      exact hok.whole
  bounded key hkey t := bounded_step h request key hkey t

theorem counted_init (config : String → RateLimitConfig) (start : ℚ) :
    (init start).Counted config where
  past _ _ h := nomatch h
  live _ := rfl
  one _ _ h := nomatch h
  whole _ h := nomatch h
  bounded _ h _ := RateLimiter.zero_le h

end RateState

/-- In every run in which no cleanup throws away a request that is still in its window, every window
of every key has at most as many accepted requests as the key may have. -/
theorem rateLimiter_bounded {config : String → RateLimitConfig} {start : ℚ}
    {requests : List (NNRat × String)}
    (h : Run.AllSteps (RateState.step config) (RateState.CleansSafely config)
      (RateState.init start) requests) :
    Run.AllStates (RateState.step config)
      (fun s => ∀ r ∈ s.requests, ∀ t,
        JsNumber.le (s.acceptedIn r.key (config r.key).windowMs t) (config r.key).maxRequests = true)
      (RateState.init start) requests := by
  have hcounted : Run.AllStates (RateState.step config) (RateState.Counted config)
      (RateState.init start) requests :=
    Run.allStates_of_invariant (fun s request hs hok => RateState.Counted.step hs hok)
      (RateState.counted_init config start) h
  refine hcounted.mono fun s hs => ?_
  intro r hr t
  exact hs.bounded r.key (hs.whole r hr) t

/-- Three requests in an hour of which two are allowed. -/
theorem rateLimiter_bounded_hour :
    let config : String → RateLimitConfig := fun _ => ⟨2, 3600000⟩
    let s := Run.run (RateState.step config) (RateState.init 0) [(0, "a"), (1, "a"), (1, "a")]
    ∀ r ∈ s.requests, ∀ t, JsNumber.le (s.acceptedIn r.key 3600000 t) 2 = true := by
  intro config s
  have hsafe (s : RateState) (request : NNRat × String) : s.CleansSafely config request :=
    RateState.cleansSafely_of_hour (.inr ⟨2, rfl⟩) fun _ => ⟨3600000, le_rfl, rfl⟩
  have hrun : Run.AllSteps (RateState.step config) (RateState.CleansSafely config)
      (RateState.init 0) [(0, "a"), (1, "a"), (1, "a")] :=
    ⟨hsafe _ _, hsafe _ _, hsafe _ _, trivial⟩
  exact (rateLimiter_bounded hrun).last

/-- One request in two hours is allowed. Another key makes the limiter clean up after an hour, and
the request that it has forgotten is accepted again. -/
theorem rateLimiter_exceeds_long_window :
    let config : String → RateLimitConfig := fun _ => ⟨1, 7200000⟩
    let s := Run.run (RateState.step config) (RateState.init 0)
      [(0, "a"), (3600001, "b"), (1, "a")]
    s.acceptedIn "a" 7200000 3600002 = 2 ∧ JsNumber.le (2 : Nat) (config "a").maxRequests = false := by
  decide +kernel

end KirkForge
