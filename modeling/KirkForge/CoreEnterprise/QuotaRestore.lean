import KirkForge.CoreEnterprise.QuotaCounters
import KirkForge.CoreEnterprise.QuotaPersistence
import KirkForge.Theory.JsNumber

/-!
# Quotas that are saved and loaded

A manager into which a snapshot is loaded answers as the one that was saved, whatever is recorded
afterwards, if for each action the limit and the counter leave the same room in both. The snapshot
does not say when it was made, and `load` adds to the counters.
-/

namespace KirkForge

open JsNumber

theorem QuotaUsage.ext_counter {α : Type} {u v : QuotaUsage α} (h : ∀ a, u.counter a = v.counter a) :
    u = v := by
  obtain ⟨u1, u2, u3, u4, u5, u6, u7⟩ := u
  obtain ⟨v1, v2, v3, v4, v5, v6, v7⟩ := v
  obtain rfl : u1 = v1 := h .concurrentTask
  obtain rfl : u2 = v2 := h .storage
  obtain rfl : u3 = v3 := h .observation
  obtain rfl : u4 = v4 := h .tokenSpend
  obtain rfl : u5 = v5 := h .toolInvocation
  obtain rfl : u6 = v6 := h .verifyRun
  obtain rfl : u7 = v7 := h .correction
  rfl

theorem TenantQuota.ext_limit {α : Type} {q q' : TenantQuota α} (h : ∀ a, q.limit a = q'.limit a) :
    q = q' := by
  obtain ⟨q1, q2, q3, q4, q5, q6, q7⟩ := q
  obtain ⟨r1, r2, r3, r4, r5, r6, r7⟩ := q'
  obtain rfl : q1 = r1 := h .concurrentTask
  obtain rfl : q2 = r2 := h .storage
  obtain rfl : q3 = r3 := h .observation
  obtain rfl : q4 = r4 := h .tokenSpend
  obtain rfl : q5 = r5 := h .toolInvocation
  obtain rfl : q6 = r6 := h .verifyRun
  obtain rfl : q7 = r7 := h .correction
  rfl

@[simp] theorem TenantQuota.limit_saved (quota : TenantQuota Limit) (a : QuotaAction) :
    quota.saved.limit a = (quota.limit a).saved := by
  cases a <;> rfl

@[simp] theorem QuotaUsage.counter_saved (u : QuotaUsage JsNumber) (a : QuotaAction) :
    u.saved.counter a = savedCounter (u.counter a) := by
  cases a <;> rfl

/-! ### The same answers -/

/-- The state after a record. -/
def QuotaState.record (s : QuotaState) (call : Nat × String × QuotaUsage (Option JsNumber)) :
    QuotaState := s.step (call.1, .recordUsage call.2.1 call.2.2)

/-- The answer of `checkQuota` after some time. -/
def QuotaState.allows (s : QuotaState) (elapsed : Nat) (tenantId : String) (a : QuotaAction) :
    Bool :=
  (s.manager.checkQuota (s.now + elapsed) tenantId a).2.isNone

/-- Whatever is recorded in both managers from now on, every later check has the same answer in
both. -/
def SameDecisions (now : Nat) (m r : QuotaManager) : Prop :=
  ∀ (records : List (Nat × String × QuotaUsage (Option JsNumber))) (elapsed : Nat)
    (tenantId : String) (a : QuotaAction),
    (Run.run QuotaState.record ⟨now, m⟩ records).allows elapsed tenantId a =
      (Run.run QuotaState.record ⟨now, r⟩ records).allows elapsed tenantId a

namespace QuotaManager

variable {m r : QuotaManager} {now : Nat}

/-- Both managers have the same room for every tenant and action, now and after a reset. -/
structure Alike (now : Nat) (m r : QuotaManager) : Prop where
  room : ∀ t a, headroom (m.counterAt now t a) (m.limitOf t a).value =
    headroom (r.counterAt now t a) (r.limitOf t a).value
  reset : ∀ t a, a.isHourly ∨ a.isDaily →
    headroom 0 (m.limitOf t a).value = headroom 0 (r.limitOf t a).value

theorem Alike.later (h : Alike now m r) (hm : m.Timely now) (hr : r.Timely now) (elapsed : Nat) :
    Alike (now + elapsed) m r where
  room t a := by
    rw [counterAt_later hm (Nat.le_add_right ..), counterAt_later hr (Nat.le_add_right ..)]
    split
    · next hl => exact h.reset t a (hl.imp And.left And.left)
    · exact h.room t a
  reset := h.reset

theorem Alike.recordUsage (h : Alike now m r) (t : String)
    (delta : QuotaUsage (Option JsNumber)) :
    Alike now (m.recordUsage now t delta) (r.recordUsage now t delta) where
  room t' a := by
    rw [counterAt_recordUsage, counterAt_recordUsage]
    split
    · exact headroom_add (h.room t' a) _
    · exact h.room t' a
  reset := h.reset

/-- Managers with the same room still have it after the same records. -/
theorem Alike.run (hm : m.Timely now) (hr : r.Timely now) (h : Alike now m r)
    (records : List (Nat × String × QuotaUsage (Option JsNumber))) :
    ∃ now' m' r', Run.run QuotaState.record ⟨now, m⟩ records = ⟨now', m'⟩ ∧
      Run.run QuotaState.record ⟨now, r⟩ records = ⟨now', r'⟩ ∧
      m'.Timely now' ∧ r'.Timely now' ∧ Alike now' m' r' := by
  induction records generalizing now m r with
  | nil => exact ⟨now, m, r, rfl, rfl, hm, hr, h⟩
  | cons call records ih =>
    have hle : now ≤ now + call.1 := Nat.le_add_right ..
    exact ih ((hm.mono hle).recordUsage _ _) ((hr.mono hle).recordUsage _ _)
      ((h.later hm hr call.1).recordUsage _ _)

/-- The record of one counter. -/
def only (a : QuotaAction) (delta : JsNumber) : QuotaUsage (Option JsNumber) :=
  let counter (b : QuotaAction) := if b = a then some delta else none
  ⟨counter .concurrentTask, counter .storage, counter .observation, counter .tokenSpend,
    counter .toolInvocation, counter .verifyRun, counter .correction⟩

theorem counter_only (a : QuotaAction) (delta : JsNumber) :
    (only a delta).counter a = some delta := by
  cases a <;> rfl

/-- A day is enough for every counter that is set back. -/
theorem lapses_day {a : QuotaAction} (ha : a.isHourly ∨ a.isDaily) (now : Nat) :
    lapses a now (now + 86400000) := by
  refine ha.imp (fun h => ⟨h, ?_⟩) fun h => ⟨h, ?_⟩
  · rw [hourOf, hourOf]
    omega
  · rw [dayOf, dayOf]
    omega

/-- Two managers give the same answers exactly if they have the same room everywhere. -/
theorem sameDecisions_iff (hm : m.Timely now) (hr : r.Timely now) :
    SameDecisions now m r ↔ Alike now m r := by
  constructor
  · intro h
    have hone (elapsed : Nat) (t : String) (a : QuotaAction) (delta : JsNumber) :
        le (m.limitOf t a).value (m.counterAt (now + elapsed) t a + delta) =
          le (r.limitOf t a).value (r.counterAt (now + elapsed) t a + delta) := by
      have hcounter (m : QuotaManager) : (m.recordUsage (now + elapsed) t (only a delta)).counterAt
          (now + elapsed) t a = m.counterAt (now + elapsed) t a + delta := by
        rw [counterAt_recordUsage, if_pos rfl, counter_only, Option.getD_some]
      have hcheck := h [(elapsed, t, only a delta)] 0 t a
      rw [QuotaState.allows, QuotaState.allows, checkQuota_isNone, checkQuota_isNone,
        Bool.not_inj_iff] at hcheck
      rw [← hcounter m, ← hcounter r]
      exact hcheck
    refine ⟨fun t a => reaches_eq_iff.mp (hone 0 t a), fun t a ha => ?_⟩
    rw [← reaches_eq_iff]
    intro delta
    have hday := hone 86400000 t a delta
    rwa [counterAt_later hm (Nat.le_add_right ..), counterAt_later hr (Nat.le_add_right ..),
      if_pos (lapses_day ha now), if_pos (lapses_day ha now)] at hday
  · intro h records elapsed t a
    obtain ⟨now', m', r', hrun, hrun', hm', hr', h'⟩ := h.run hm hr records
    have hroom := reaches_eq_iff.mpr ((h'.later hm' hr' elapsed).room t a) 0
    rw [add_zero, add_zero] at hroom
    rw [hrun, hrun', QuotaState.allows, QuotaState.allows, checkQuota_isNone, checkQuota_isNone,
      hroom]

/-! ### What is saved and loaded -/

open QuotaPersistence

theorem usage_autoResetIfStale (now : Nat) (t tenantId : String) (m : QuotaManager) :
    ((m.autoResetIfStale now t).getUsage now tenantId).2 = (m.getUsage now tenantId).2 :=
  QuotaUsage.ext_counter fun a => counterAt_autoResetIfStale now t tenantId a m

/-- Saving writes the limits and counters of the tenants, and sets back only what is due. -/
theorem collect_spec (now : Nat) (m : QuotaManager) (tenantIds : List String) :
    (collect now m tenantIds).2 = (tenantIds.filter (· ≠ "__proto__")).map (fun t =>
        (t, (m.getQuota t).saved, (m.getUsage now t).2.saved)) ∧
      (∀ t a, (collect now m tenantIds).1.counterAt now t a = m.counterAt now t a) ∧
      (∀ t a, (collect now m tenantIds).1.limitOf t a = m.limitOf t a) ∧
      (m.Timely now → (collect now m tenantIds).1.Timely now) := by
  induction tenantIds generalizing m with
  | nil => exact ⟨rfl, fun _ _ => rfl, fun _ _ => rfl, id⟩
  | cons tenantId tenantIds ih =>
    obtain ⟨hentries, hcounter, hlimit, htimely⟩ := ih (m.autoResetIfStale now tenantId)
    simp only [counterAt_autoResetIfStale] at hcounter
    simp only [usage_autoResetIfStale] at hentries
    rw [collect]
    by_cases hproto : tenantId = "__proto__"
    · rw [if_pos hproto, List.filter_cons_of_neg (by simpa using hproto)]
      exact ⟨hentries, hcounter, hlimit, fun h => htimely (h.autoResetIfStale tenantId)⟩
    · rw [if_neg hproto, List.filter_cons_of_pos (by simpa using hproto), List.map_cons]
      exact ⟨congrArg _ hentries, hcounter, hlimit, fun h => htimely (h.autoResetIfStale tenantId)⟩

/-- The limits after a snapshot is loaded. -/
theorem limitOf_restoreQuotas {quotas : List (String × TenantQuota (Option Limit))}
    (h : (quotas.map Prod.fst).Nodup) (m : QuotaManager) (t : String) (a : QuotaAction) :
    (restoreQuotas m quotas).limitOf t a =
      (OrderedMap.lookup t quotas).elim (m.limitOf t a)
        fun quota => (quota.limit a).getD (DEFAULT_QUOTA.limit a) :=
  OrderedMap.foldl_observe (o := fun t m => m.limitOf t a)
    (g := fun _ quota => (quota.limit a).getD (DEFAULT_QUOTA.limit a))
    (fun m e t => limitOf_setQuota e.1 t e.2 a m) h m t

/-- The counters after a snapshot is loaded. -/
theorem counterAt_restoreUsage {usage : List (String × QuotaUsage (Option JsNumber))}
    (h : (usage.map Prod.fst).Nodup) (now : Nat) (m : QuotaManager) (t : String)
    (a : QuotaAction) :
    (restoreUsage now m usage).counterAt now t a =
      (OrderedMap.lookup t usage).elim (m.counterAt now t a)
        fun u => m.counterAt now t a + (u.counter a).getD 0 :=
  OrderedMap.foldl_observe (o := fun t m => m.counterAt now t a)
    (g := fun c u => c + (u.counter a).getD 0)
    (fun m e t => counterAt_recordUsage now e.1 t e.2 a m) h m t

theorem limitOf_restoreUsage (usage : List (String × QuotaUsage (Option JsNumber))) (now : Nat)
    (m : QuotaManager) (t : String) (a : QuotaAction) :
    (restoreUsage now m usage).limitOf t a = m.limitOf t a := by
  induction usage generalizing m with
  | nil => rfl
  | cons e usage ih => exact ih (m.recordUsage now e.1 e.2)

theorem counterAt_restoreQuotas (quotas : List (String × TenantQuota (Option Limit))) (now : Nat)
    (m : QuotaManager) (t : String) (a : QuotaAction) :
    (restoreQuotas m quotas).counterAt now t a = m.counterAt now t a := by
  induction quotas generalizing m with
  | nil => rfl
  | cons e quotas ih => exact ih (m.setQuota e.1 e.2)

theorem Timely.restore (hr : r.Timely now)
    (quotas : List (String × TenantQuota (Option Limit)))
    (usage : List (String × QuotaUsage (Option JsNumber))) :
    (restoreUsage now (restoreQuotas r quotas) usage).Timely now := by
  induction quotas generalizing r with
  | nil =>
    induction usage generalizing r with
    | nil => exact hr
    | cons e usage ih => exact ih (hr.recordUsage e.1 e.2)
  | cons e quotas ih => exact ih (r := r.setQuota e.1 e.2) ⟨hr.hour, hr.day, hr.started⟩

theorem nodup_listTenantIds (m : QuotaManager) : m.listTenantIds.Nodup := by
  refine List.nodup_append.mpr ⟨m.quotas.nodup, m.usage.nodup.filter _, fun t ht t' ht' => ?_⟩
  rintro rfl
  simpa [ht] using (List.mem_filter.mp ht').2

/-- The tenant is in the file of a manager. -/
def IsSaved (m : QuotaManager) (tenantId : String) : Prop :=
  tenantId ∈ m.listTenantIds ∧ tenantId ≠ "__proto__"

instance (m : QuotaManager) (tenantId : String) : Decidable (m.IsSaved tenantId) :=
  inferInstanceAs (Decidable (_ ∧ _))

/-- A saved value for each tenant, looked up. -/
theorem lookup_saved {γ : Type} (m : QuotaManager) (f : String → γ) (t : String) :
    OrderedMap.lookup t ((m.listTenantIds.filter (· ≠ "__proto__")).map fun t => (t, f t)) =
      if m.IsSaved t then some (f t) else none := by
  rw [OrderedMap.lookup_map_key]
  refine if_congr ?_ rfl rfl
  rw [List.mem_filter, IsSaved, decide_eq_true_eq]

variable (env : QuotaEnv) (t0 t1 : Nat) (lastSaved : String) (m r : QuotaManager)

/-- A manager into which the file of another one is loaded. -/
theorem load_save (hr : r.Timely t1) :
    let loaded := load env t1 (.state (save env t0 lastSaved m).2) r
    loaded.2 = none ∧ loaded.1.Timely t1 ∧
      ∀ t a, loaded.1.limitOf t a =
          (if m.IsSaved t then ((m.limitOf t a).saved).getD (DEFAULT_QUOTA.limit a)
            else r.limitOf t a) ∧
        loaded.1.counterAt t1 t a =
          if m.IsSaved t then
            r.counterAt t1 t a + (savedCounter (m.counterAt t0 t a)).getD 0
          else r.counterAt t1 t a := by
  let saved := m.listTenantIds.filter (· ≠ "__proto__")
  let quotas := saved.map fun t => (t, (m.getQuota t).saved)
  let usage := saved.map fun t => (t, (m.getUsage t0 t).2.saved)
  have hload : load env t1 (.state (save env t0 lastSaved m).2) r =
      (restoreUsage t1 (restoreQuotas r quotas) usage, none) := by
    have hentries := (collect_spec t0 m m.listTenantIds).1
    have hquotas : (save env t0 lastSaved m).2.quotas = quotas := by
      rw [save]
      dsimp only
      rw [hentries, List.map_map]
      rfl
    have husage : (save env t0 lastSaved m).2.usage = usage := by
      rw [save]
      dsimp only
      rw [hentries, List.map_map]
      rfl
    have hversion : (save env t0 lastSaved m).2.version = 1 := rfl
    have hhash : (save env t0 lastSaved m).2.contentHash =
        env.computeHash (contentText (save env t0 lastSaved m).2) := rfl
    rw [← hquotas, ← husage, load, if_neg (not_not_intro hversion), if_neg (not_not_intro hhash)]
  have hnodup : saved.Nodup := m.nodup_listTenantIds.filter _
  have hquotas : (quotas.map Prod.fst).Nodup := by simpa [quotas, Function.comp_def] using hnodup
  have husage : (usage.map Prod.fst).Nodup := by simpa [usage, Function.comp_def] using hnodup
  rw [hload]
  refine ⟨rfl, hr.restore quotas usage, fun t a => ⟨?_, ?_⟩⟩
  · rw [limitOf_restoreUsage, limitOf_restoreQuotas hquotas, m.lookup_saved]
    split
    · simp [limitOf]
    · rfl
  · rw [counterAt_restoreUsage husage, m.lookup_saved, counterAt_restoreQuotas]
    split
    · simp [counterAt]
    · rfl

/-! ### When the answers stay the same -/

/-- JSON has the limit: it is a finite number or `null`. -/
def IsKept (limit : Limit) : Prop :=
  limit = .null ∨ ∃ q, limit = .number (.finite q)

/-- The limit and the counter of a tenant that is read back leave the same room exactly if JSON has
the limit, and the counter is the one that was saved. -/
theorem headroom_saved_iff (limit : Limit) (counter counter₀ : JsNumber) (a : QuotaAction) :
    headroom counter limit.value =
        headroom ((savedCounter counter₀).getD 0) (limit.saved.getD (DEFAULT_QUOTA.limit a)).value ↔
      IsKept limit ∧ counter = (savedCounter counter₀).getD 0 := by
  obtain ⟨s, hs⟩ : ∃ s, (savedCounter counter₀).getD 0 = .finite s := by
    cases counter₀ <;> exact ⟨_, rfl⟩
  obtain ⟨d, hd⟩ : ∃ d, DEFAULT_QUOTA.limit a = .number (.finite d) := by
    cases a <;> exact ⟨_, rfl⟩
  rw [hs, hd, IsKept]
  cases limit with
  | undefined => cases counter <;> simp [Limit.saved, Limit.value, headroom]
  | null => cases counter <;> simp [Limit.saved, Limit.value, headroom]
  | number x => cases x <;> cases counter <;> simp [Limit.saved, Limit.value, headroom]

theorem limitOf_of_notMem {t : String} (h : t ∉ m.listTenantIds) (a : QuotaAction) :
    m.limitOf t a = m.defaultQuota.limit a := by
  rw [listTenantIds, List.mem_append, not_or] at h
  rw [limitOf, getQuota, OrderedMap.get?_eq_none_iff.mpr h.1]
  rfl

theorem counterAt_of_notMem {t : String} (h : t ∉ m.listTenantIds) (now : Nat)
    (a : QuotaAction) : m.counterAt now t a = 0 := by
  rw [listTenantIds, List.mem_append, not_or, List.mem_filter, not_and] at h
  have husage : t ∉ m.usage.keys := fun hmem => h.2 hmem (by simpa using h.1)
  rw [counterAt_eq, OrderedMap.get?_eq_none_iff.mpr husage]
  simp

theorem counterAt_create (now : Nat) (defaultQuota : TenantQuota (Option Limit)) (t : String)
    (a : QuotaAction) : (create defaultQuota).counterAt now t a = 0 :=
  counterAt_of_notMem _ List.not_mem_nil now a

/-- Every limit of a tenant in the file is one that JSON has, and each of its counters, with the
resets that are due at `t1`, is what JSON has kept of it at `t0`. A tenant `__proto__`, which is not
in the file, has the room of a new tenant. -/
structure Kept (t0 t1 : Nat) (m : QuotaManager) : Prop where
  saved : ∀ t, m.IsSaved t → ∀ a, IsKept (m.limitOf t a) ∧
    m.counterAt t1 t a = (savedCounter (m.counterAt t0 t a)).getD 0
  proto : "__proto__" ∈ m.listTenantIds → ∀ a,
    headroom (m.counterAt t1 "__proto__" a) (m.limitOf "__proto__" a).value =
      headroom 0 (m.defaultQuota.limit a).value ∧
    (a.isHourly ∨ a.isDaily →
      headroom 0 (m.limitOf "__proto__" a).value = headroom 0 (m.defaultQuota.limit a).value)

/-- Nothing that is in the file has been used. -/
def Unused (t0 : Nat) (m : QuotaManager) : Prop :=
  ∀ t, m.IsSaved t → ∀ a, (savedCounter (m.counterAt t0 t a)).getD 0 = 0

/-- What `getQuota` and `getUsage` say of each tenant is the same. -/
def SameState (now : Nat) (m r : QuotaManager) : Prop :=
  ∀ t, m.getQuota t = r.getQuota t ∧ (m.getUsage now t).2 = (r.getUsage now t).2

theorem reset_room_of_isKept {limit : Limit} (h : IsKept limit) (a : QuotaAction) :
    headroom 0 limit.value = headroom 0 (limit.saved.getD (DEFAULT_QUOTA.limit a)).value := by
  rcases h with rfl | ⟨q, rfl⟩ <;> rfl

/-- Of the tenants in use one by the name of the prototype alone is not saved. -/
theorem cases_of_not_isSaved {m : QuotaManager} {t : String} (h : ¬m.IsSaved t) :
    t = "__proto__" ∧ t ∈ m.listTenantIds ∨ t ∉ m.listTenantIds := by
  by_cases hmem : t ∈ m.listTenantIds
  · exact .inl ⟨not_not.mp fun hne => h ⟨hmem, hne⟩, hmem⟩
  · exact .inr hmem

/-- The manager that was saved and the new one into which the file is loaded have the same room
exactly if everything is kept. -/
theorem alike_load_save_iff {defaultQuota : TenantQuota (Option Limit)} {m : QuotaManager}
    (hdefault : m.defaultQuota = DEFAULT_QUOTA.spread defaultQuota) (hm : m.Timely t0)
    (hle : t0 ≤ t1) :
    Alike t1 (save env t0 lastSaved m).1
        (load env t1 (.state (save env t0 lastSaved m).2) (create defaultQuota)).1 ↔
      Kept t0 t1 m := by
  obtain ⟨-, hcounter, hlimit, htimely⟩ := collect_spec t0 m m.listTenantIds
  obtain ⟨-, -, hloaded⟩ := load_save env t0 t1 lastSaved m (create defaultQuota)
    (timely_create t1 defaultQuota)
  have hnow (t : String) (a : QuotaAction) :
      (save env t0 lastSaved m).1.counterAt t1 t a = m.counterAt t1 t a := by
    have hsaved : (save env t0 lastSaved m).1.counterAt t1 t a =
      (collect t0 m m.listTenantIds).1.counterAt t1 t a := rfl
    rw [hsaved, counterAt_later (htimely hm) hle, counterAt_later hm hle, hcounter]
  have hlimit' (t : String) (a : QuotaAction) :
      (save env t0 lastSaved m).1.limitOf t a = m.limitOf t a := hlimit t a
  have hfresh (t : String) (a : QuotaAction) :
      (create defaultQuota).counterAt t1 t a = 0 ∧
        (create defaultQuota).limitOf t a = m.defaultQuota.limit a :=
    ⟨counterAt_create t1 defaultQuota t a, by rw [hdefault]; rfl⟩
  constructor
  · intro h
    refine ⟨fun t ht a => ?_, fun hproto a => ⟨?_, fun ha => ?_⟩⟩
    · have hroom := h.room t a
      rw [hnow, hlimit', (hloaded t a).1, (hloaded t a).2, if_pos ht, if_pos ht, (hfresh t a).1,
        JsNumber.zero_add] at hroom
      exact (headroom_saved_iff _ _ _ a).mp hroom
    · have hroom := h.room "__proto__" a
      rwa [hnow, hlimit', (hloaded _ a).1, (hloaded _ a).2, if_neg (fun h => h.2 rfl),
        if_neg (fun h => h.2 rfl), (hfresh _ a).1, (hfresh _ a).2] at hroom
    · have hroom := h.reset "__proto__" a ha
      rwa [hlimit', (hloaded _ a).1, if_neg (fun h => h.2 rfl), (hfresh _ a).2] at hroom
  · intro h
    constructor
    · intro t a
      rw [hnow, hlimit', (hloaded t a).1, (hloaded t a).2]
      by_cases ht : m.IsSaved t
      · rw [if_pos ht, if_pos ht, (hfresh t a).1, JsNumber.zero_add]
        exact (headroom_saved_iff _ _ _ a).mpr (h.saved t ht a)
      · rw [if_neg ht, if_neg ht, (hfresh t a).1, (hfresh t a).2]
        rcases cases_of_not_isSaved ht with ⟨rfl, hmem⟩ | hmem
        · exact (h.proto hmem a).1
        · rw [counterAt_of_notMem m hmem, limitOf_of_notMem m hmem]
    · intro t a ha
      rw [hlimit', (hloaded t a).1]
      by_cases ht : m.IsSaved t
      · rw [if_pos ht]
        exact reset_room_of_isKept (h.saved t ht a).1 a
      · rw [if_neg ht, (hfresh t a).2]
        rcases cases_of_not_isSaved ht with ⟨rfl, hmem⟩ | hmem
        · exact (h.proto hmem a).2 ha
        · rw [limitOf_of_notMem m hmem]

theorem finite_add_eq_self_iff (x s : ℚ) : finite x + finite s = finite x ↔ finite s = 0 := by
  rw [finite_add, finite.injEq, add_eq_left]
  exact finite.injEq s 0 ▸ Iff.rfl

/-- Loading a file again changes nothing exactly if it holds no usage. -/
theorem sameState_load_again_iff (defaultQuota : TenantQuota (Option Limit)) (m : QuotaManager)
    {t2 : Nat} (hle : t1 ≤ t2) :
    let loaded := (load env t1 (.state (save env t0 lastSaved m).2) (create defaultQuota)).1
    SameState t2 (load env t2 (.state (save env t0 lastSaved m).2) loaded).1 loaded ↔
      Unused t0 m := by
  intro loaded
  obtain ⟨-, htimely, hloaded⟩ := load_save env t0 t1 lastSaved m (create defaultQuota)
    (timely_create t1 defaultQuota)
  obtain ⟨-, -, hagain⟩ := load_save env t0 t2 lastSaved m loaded (htimely.mono hle)
  have hadd (t : String) (ht : m.IsSaved t) (a : QuotaAction) :
      (load env t2 (.state (save env t0 lastSaved m).2) loaded).1.counterAt t2 t a =
          loaded.counterAt t2 t a ↔ (savedCounter (m.counterAt t0 t a)).getD 0 = 0 := by
    obtain ⟨s, hs⟩ : ∃ s, (savedCounter (m.counterAt t0 t a)).getD 0 = .finite s := by
      cases m.counterAt t0 t a <;> exact ⟨_, rfl⟩
    obtain ⟨x, hx⟩ : ∃ x, loaded.counterAt t2 t a = .finite x := by
      rw [counterAt_later htimely hle, (hloaded t a).2, if_pos ht, hs]
      split
      · exact ⟨0, rfl⟩
      · exact ⟨s, by rw [counterAt_create, JsNumber.zero_add]⟩
    rw [(hagain t a).2, if_pos ht, hs, hx, finite_add_eq_self_iff]
  constructor
  · intro h t ht a
    exact (hadd t ht a).mp (congrArg (QuotaUsage.counter · a) (h t).2)
  · intro h t
    refine ⟨TenantQuota.ext_limit fun a => ?_, QuotaUsage.ext_counter fun a => ?_⟩
    · have hlimit := (hagain t a).1
      by_cases ht : m.IsSaved t
      · rw [if_pos ht] at hlimit
        exact hlimit.trans ((hloaded t a).1.trans (if_pos ht)).symm
      · rwa [if_neg ht] at hlimit
    · by_cases ht : m.IsSaved t
      · exact (hadd t ht a).mpr (h t ht a)
      · have hcounter := (hagain t a).2
        rwa [if_neg ht] at hcounter

end QuotaManager

theorem QuotaState.defaultQuota_run (now : Nat) (m : QuotaManager)
    (history : List (Nat × QuotaInput)) :
    (Run.run QuotaState.step ⟨now, m⟩ history).manager.defaultQuota = m.defaultQuota :=
  Run.run_invariant (I := fun s : QuotaState => s.manager.defaultQuota = m.defaultQuota)
    (fun s call h => by obtain ⟨elapsed, input⟩ := call; cases input <;> exact h) history rfl

open QuotaManager

/-- A manager with any history is saved at `t0` and loaded at `t1` into a new one with the same
default limits. It answers as the one that was saved, whatever is recorded afterwards, exactly if
everything is kept; and loading the file once more, at any time, changes nothing exactly if nothing
in it has been used. -/
theorem quotaSnapshot_faithful_iff (env : QuotaEnv) (start : Nat)
    (defaultQuota : TenantQuota (Option Limit)) (history : List (Nat × QuotaInput))
    (untilSave untilLoad untilAgain : Nat) (lastSaved : String) :
    let s := Run.run QuotaState.step ⟨start, .create defaultQuota⟩ history
    let t0 := s.now + untilSave
    let t1 := t0 + untilLoad
    let t2 := t1 + untilAgain
    let saved := QuotaPersistence.save env t0 lastSaved s.manager
    let loaded := (QuotaPersistence.load env t1 (.state saved.2) (.create defaultQuota)).1
    (SameDecisions t1 saved.1 loaded ↔ QuotaManager.Kept t0 t1 s.manager) ∧
      (QuotaManager.SameState t2 (QuotaPersistence.load env t2 (.state saved.2) loaded).1 loaded ↔
        QuotaManager.Unused t0 s.manager) := by
  intro s t0 t1 t2 saved loaded
  have htimely : s.manager.Timely t0 :=
    (QuotaState.timely_run start defaultQuota history).mono (Nat.le_add_right ..)
  obtain ⟨-, -, -, hsaved⟩ := collect_spec t0 s.manager s.manager.listTenantIds
  obtain ⟨-, hloaded, -⟩ := load_save env t0 t1 lastSaved s.manager (.create defaultQuota)
    (timely_create t1 defaultQuota)
  refine ⟨?_, sameState_load_again_iff env t0 t1 lastSaved defaultQuota s.manager
    (Nat.le_add_right ..)⟩
  have hsame : SameDecisions t1 saved.1 loaded ↔ Alike t1 saved.1 loaded :=
    sameDecisions_iff ((hsaved htimely).mono (Nat.le_add_right ..)) hloaded
  exact hsame.trans (alike_load_save_iff env t0 t1 lastSaved
    (QuotaState.defaultQuota_run start _ history) htimely (Nat.le_add_right ..))

/-- All the verification runs of an hour are used, and the manager is saved and loaded in the next
hour: the one that was saved allows another run, the one that is loaded does not, and a second load
doubles the count. -/
theorem quotaSnapshot_denies_next_hour :
    let env : QuotaEnv := ⟨fun _ => ""⟩
    let s := Run.run QuotaState.step ⟨0, .create DEFAULT_QUOTA.saved⟩
      [(0, .recordUsage "acme" (only .verifyRun 500))]
    let saved := QuotaPersistence.save env 0 "1970-01-01T00:00:00.000Z" s.manager
    let loaded :=
      (QuotaPersistence.load env 3600000 (.state saved.2) (.create DEFAULT_QUOTA.saved)).1
    let again := (QuotaPersistence.load env 3600000 (.state saved.2) loaded).1
    (saved.1.checkQuota 3600000 "acme" .verifyRun).2 = none ∧
      (loaded.checkQuota 3600000 "acme" .verifyRun).2 =
        some ⟨"maxVerifyRunsPerHour", .number 500, 500⟩ ∧
      loaded.counterAt 3600000 "acme" .verifyRun = 500 ∧
      again.counterAt 3600000 "acme" .verifyRun = 1000 := by
  decide +kernel

end KirkForge
