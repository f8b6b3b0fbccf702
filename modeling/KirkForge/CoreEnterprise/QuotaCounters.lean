import KirkForge.CoreEnterprise.Quotas
import KirkForge.Theory.Run

/-!
# The counters of a quota manager

What a quota manager answers depends on its limits and on its counters as they stand after the
resets that are due. A record adds to one tenant's counters, the clock sets the counters of an hour
or a day back when it passes into another one, and nothing else that goes with the clock changes
them.
-/

namespace KirkForge

@[simp] theorem TenantQuota.limit_spread (quota : TenantQuota Limit)
    (other : TenantQuota (Option Limit)) (a : QuotaAction) :
    (quota.spread other).limit a = (other.limit a).getD (quota.limit a) := by
  cases a <;> rfl

@[simp] theorem QuotaUsage.counter_zero (a : QuotaAction) : zero.counter a = 0 := by
  cases a <;> rfl

@[simp] theorem QuotaUsage.counter_add (u : QuotaUsage JsNumber)
    (delta : QuotaUsage (Option JsNumber)) (a : QuotaAction) :
    (u.add delta).counter a = u.counter a + (delta.counter a).getD 0 := by
  cases a <;> rfl

@[simp] theorem QuotaUsage.counter_resetHourly (u : QuotaUsage JsNumber) (a : QuotaAction) :
    u.resetHourly.counter a = if a.isHourly then 0 else u.counter a := by
  cases a <;> rfl

@[simp] theorem QuotaUsage.counter_resetDaily (u : QuotaUsage JsNumber) (a : QuotaAction) :
    u.resetDaily.counter a = if a.isDaily then 0 else u.counter a := by
  cases a <;> rfl

namespace QuotaManager

variable {m : QuotaManager} {now now' : Nat} {tenantId tenantId' : String} {a : QuotaAction}

/-- The period is later than that of the last reset. -/
def isDue (last : Option Nat) (current : Nat) : Bool := last.any (current > ·)

/-- The counter of an action as it stands at a time. -/
def counterAt (now : Nat) (tenantId : String) (a : QuotaAction) (m : QuotaManager) : JsNumber :=
  (m.getUsage now tenantId).2.counter a

def limitOf (tenantId : String) (a : QuotaAction) (m : QuotaManager) : Limit :=
  (m.getQuota tenantId).limit a

/-- The boundaries are not ahead of the clock, and a tenant with counters has boundaries. -/
structure Timely (now : Nat) (m : QuotaManager) : Prop where
  hour : ∀ tenantId h, m.lastHourBoundary.get? tenantId = some h → h ≤ hourOf now
  day : ∀ tenantId d, m.lastDayBoundary.get? tenantId = some d → d ≤ dayOf now
  started : ∀ tenantId u, m.usage.get? tenantId = some u →
    (m.lastHourBoundary.get? tenantId).isSome ∧ (m.lastDayBoundary.get? tenantId).isSome

/-! ### The resets that are due -/

theorem get?_resetCounters (reset : QuotaUsage JsNumber → QuotaUsage JsNumber) (tenantId : String)
    (usage : OrderedMap String (QuotaUsage JsNumber)) (t : String) :
    (resetCounters reset tenantId usage).get? t =
      if tenantId = t then (usage.get? t).map reset else usage.get? t := by
  rw [resetCounters]
  split
  · next h =>
    split
    · next ht => rw [← ht, h]; rfl
    · rfl
  · next u h =>
    rw [OrderedMap.get?_set]
    split
    · next ht => rw [← ht, h]; rfl
    · rfl

/-- The tenant's counters are set back if the period is a new one, and the boundary is moved up. -/
theorem enterPeriod_spec (reset : QuotaUsage JsNumber → QuotaUsage JsNumber) (current : Nat)
    (tenantId : String) (lastBoundary : OrderedMap String Nat)
    (usage : OrderedMap String (QuotaUsage JsNumber)) (t : String) :
    (enterPeriod reset current tenantId lastBoundary usage).1.get? t =
        (if tenantId = t ∧ isDue (lastBoundary.get? t) current then (usage.get? t).map reset
          else usage.get? t) ∧
      (enterPeriod reset current tenantId lastBoundary usage).2.get? t =
        if tenantId = t then some (((lastBoundary.get? t).getD 0).max current)
        else lastBoundary.get? t := by
  rw [enterPeriod]
  split
  · next h =>
    rw [OrderedMap.get?_set]
    by_cases ht : tenantId = t
    · subst ht
      simp [isDue, h]
    · simp [ht]
  · next last h =>
    by_cases ht : tenantId = t
    · subst ht
      split
      · next hlt =>
        simp [get?_resetCounters, isDue, h, hlt, Nat.max_eq_right (Nat.le_of_lt hlt)]
      · next hle => simp [isDue, h, hle, Nat.max_eq_left (Nat.le_of_not_lt hle)]
    · split
      · simp [get?_resetCounters, OrderedMap.get?_set, ht]
      · simp [ht]

/-- The boundaries and the stored counters after the resets that are due. -/
theorem autoResetIfStale_spec (now : Nat) (tenantId : String) (m : QuotaManager) (t : String) :
    (m.autoResetIfStale now tenantId).usage.get? t =
        (if tenantId = t ∧ isDue (m.lastDayBoundary.get? t) (dayOf now) then
          (if tenantId = t ∧ isDue (m.lastHourBoundary.get? t) (hourOf now) then
            (m.usage.get? t).map .resetHourly else m.usage.get? t).map .resetDaily
        else if tenantId = t ∧ isDue (m.lastHourBoundary.get? t) (hourOf now) then
          (m.usage.get? t).map .resetHourly else m.usage.get? t) ∧
      (m.autoResetIfStale now tenantId).lastHourBoundary.get? t =
        (if tenantId = t then some (((m.lastHourBoundary.get? t).getD 0).max (hourOf now))
          else m.lastHourBoundary.get? t) ∧
      (m.autoResetIfStale now tenantId).lastDayBoundary.get? t =
        if tenantId = t then some (((m.lastDayBoundary.get? t).getD 0).max (dayOf now))
          else m.lastDayBoundary.get? t := by
  obtain ⟨hhour, hhour'⟩ := enterPeriod_spec .resetHourly (hourOf now) tenantId m.lastHourBoundary
    m.usage t
  obtain ⟨hday, hday'⟩ := enterPeriod_spec .resetDaily (dayOf now) tenantId m.lastDayBoundary
    (enterPeriod .resetHourly (hourOf now) tenantId m.lastHourBoundary m.usage).1 t
  exact ⟨by rw [autoResetIfStale, hday, hhour], hhour', hday'⟩

/-- The counters of a tenant at a time, from those that are stored. -/
theorem counterAt_eq (now : Nat) (tenantId : String) (a : QuotaAction) (m : QuotaManager) :
    m.counterAt now tenantId a =
      if (a.isHourly ∧ isDue (m.lastHourBoundary.get? tenantId) (hourOf now)) ∨
          (a.isDaily ∧ isDue (m.lastDayBoundary.get? tenantId) (dayOf now)) then 0
      else ((m.usage.get? tenantId).getD .zero).counter a := by
  rw [counterAt, getUsage, (autoResetIfStale_spec now tenantId m tenantId).1]
  cases m.usage.get? tenantId with
  | none => simp
  | some u =>
    by_cases hh : isDue (m.lastHourBoundary.get? tenantId) (hourOf now) = true <;>
      by_cases hd : isDue (m.lastDayBoundary.get? tenantId) (dayOf now) = true <;>
      simp only [hh, hd, and_true, and_false, if_true, if_false, Option.map_some, Option.getD_some,
        QuotaUsage.counter_resetHourly, QuotaUsage.counter_resetDaily, or_false, false_or,
        Bool.false_eq_true]
    rw [ite_or]
    split_ifs <;> rfl

theorem isDue_max (last : Option Nat) (current : Nat) :
    isDue (some ((last.getD 0).max current)) current = false := by
  simp [isDue]

/-- The resets that are due at a time make no difference to the counters at that time. -/
theorem counterAt_autoResetIfStale (now : Nat) (t tenantId : String) (a : QuotaAction)
    (m : QuotaManager) :
    (m.autoResetIfStale now t).counterAt now tenantId a = m.counterAt now tenantId a := by
  by_cases ht : t = tenantId
  · subst ht
    obtain ⟨-, hhour, hday⟩ := autoResetIfStale_spec now t m t
    rw [counterAt_eq, hhour, hday, if_pos rfl, if_pos rfl, isDue_max, isDue_max]
    simp only [Bool.false_eq_true, and_false, or_false, if_false]
    rfl
  · obtain ⟨husage, hhour, hday⟩ := autoResetIfStale_spec now t m tenantId
    simp only [ht, false_and, if_false] at husage hhour hday
    rw [counterAt_eq, counterAt_eq, husage, hhour, hday]

theorem Timely.mono (h : m.Timely now) (hle : now ≤ now') : m.Timely now' where
  hour t k hk := (h.hour t k hk).trans (Nat.div_le_div_right hle)
  day t k hk := (h.day t k hk).trans (Nat.div_le_div_right hle)
  started := h.started

theorem boundary_le {last : Option Nat} {current k : Nat} {p : Prop} [Decidable p]
    (h : ∀ l, last = some l → l ≤ current)
    (hk : (if p then some ((last.getD 0).max current) else last) = some k) : k ≤ current := by
  split at hk
  · cases last with
    | none => simp_all
    | some l => have := h l rfl; simp_all
  · exact h k hk

theorem Timely.autoResetIfStale (h : m.Timely now) (tenantId : String) :
    (m.autoResetIfStale now tenantId).Timely now where
  hour t k hk := boundary_le (h.hour t) ((autoResetIfStale_spec now tenantId m t).2.1 ▸ hk)
  day t k hk := boundary_le (h.day t) ((autoResetIfStale_spec now tenantId m t).2.2 ▸ hk)
  started t u hu := by
    obtain ⟨husage, hhour, hday⟩ := autoResetIfStale_spec now tenantId m t
    rw [hhour, hday]
    by_cases ht : tenantId = t
    · simp [ht]
    · rw [husage] at hu
      simp only [ht, false_and, if_false] at hu ⊢
      exact h.started t u hu

theorem isSome_autoResetIfStale (now : Nat) (tenantId : String) (m : QuotaManager) :
    ((m.autoResetIfStale now tenantId).lastHourBoundary.get? tenantId).isSome ∧
      ((m.autoResetIfStale now tenantId).lastDayBoundary.get? tenantId).isSome := by
  obtain ⟨-, hhour, hday⟩ := autoResetIfStale_spec now tenantId m tenantId
  rw [hhour, hday, if_pos rfl, if_pos rfl]
  exact ⟨rfl, rfl⟩

/-! ### The clock -/

/-- A boundary at which the counter is set back lies between the times. -/
def lapses (a : QuotaAction) (now now' : Nat) : Prop :=
  (a.isHourly ∧ hourOf now < hourOf now') ∨ (a.isDaily ∧ dayOf now < dayOf now')

instance (a : QuotaAction) (now now' : Nat) : Decidable (lapses a now now') :=
  inferInstanceAs (Decidable (_ ∨ _))

/-- The clock sets counters back at the boundaries it passes, and does nothing else. -/
theorem counterAt_later (h : m.Timely now) (hle : now ≤ now') (tenantId : String)
    (a : QuotaAction) : m.counterAt now' tenantId a =
      if lapses a now now' then 0 else m.counterAt now tenantId a := by
  have hhour : hourOf now ≤ hourOf now' := Nat.div_le_div_right hle
  have hday : dayOf now ≤ dayOf now' := Nat.div_le_div_right hle
  rw [counterAt_eq, counterAt_eq]
  cases husage : m.usage.get? tenantId with
  | none => simp
  | some u =>
    obtain ⟨hs, ds⟩ := h.started tenantId u husage
    obtain ⟨lastHour, hlastHour⟩ := Option.isSome_iff_exists.mp hs
    obtain ⟨lastDay, hlastDay⟩ := Option.isSome_iff_exists.mp ds
    have := h.hour tenantId lastHour hlastHour
    have := h.day tenantId lastDay hlastDay
    simp only [hlastHour, hlastDay, isDue, Option.any_some, decide_eq_true_eq, lapses]
    rw [← ite_or]
    refine if_congr ?_ rfl rfl
    cases a.isHourly <;> cases a.isDaily <;> simp <;> omega

/-! ### Records -/

/-- A record adds to the counters of its tenant. -/
theorem counterAt_recordUsage (now : Nat) (t tenantId : String)
    (delta : QuotaUsage (Option JsNumber)) (a : QuotaAction) (m : QuotaManager) :
    (m.recordUsage now t delta).counterAt now tenantId a =
      if t = tenantId then m.counterAt now tenantId a + (delta.counter a).getD 0
      else m.counterAt now tenantId a := by
  by_cases ht : t = tenantId
  · subst ht
    obtain ⟨-, hhour, hday⟩ := autoResetIfStale_spec now t m t
    have hstored : (m.recordUsage now t delta).usage.get? t =
        some ((m.getUsage now t).2.add delta) := OrderedMap.get?_set_self _ _ _
    rw [counterAt_eq, hstored, if_pos rfl]
    change (if (a.isHourly ∧ isDue ((m.autoResetIfStale now t).lastHourBoundary.get? t) _) ∨
      (a.isDaily ∧ isDue ((m.autoResetIfStale now t).lastDayBoundary.get? t) _) then _ else _) = _
    rw [hhour, hday, if_pos rfl, if_pos rfl, isDue_max, isDue_max]
    simp [counterAt]
  · rw [if_neg ht, ← counterAt_autoResetIfStale now t tenantId a m, counterAt_eq, counterAt_eq]
    have hstored : (m.recordUsage now t delta).usage.get? tenantId =
        (m.autoResetIfStale now t).usage.get? tenantId := OrderedMap.get?_set_of_ne _ ht _
    rw [hstored]
    rfl

theorem Timely.recordUsage (h : m.Timely now) (tenantId : String)
    (delta : QuotaUsage (Option JsNumber)) : (m.recordUsage now tenantId delta).Timely now where
  hour := (h.autoResetIfStale tenantId).hour
  day := (h.autoResetIfStale tenantId).day
  started t u hu := by
    by_cases ht : tenantId = t
    · subst ht
      exact isSome_autoResetIfStale now tenantId m
    · have hstored : (m.recordUsage now tenantId delta).usage.get? t =
          (m.autoResetIfStale now tenantId).usage.get? t := OrderedMap.get?_set_of_ne _ ht _
      exact (h.autoResetIfStale tenantId).started t u (hstored ▸ hu)

/-- What `checkQuota` says. -/
theorem checkQuota_isNone (now : Nat) (tenantId : String) (a : QuotaAction) (m : QuotaManager) :
    (m.checkQuota now tenantId a).2.isNone =
      !JsNumber.le (m.limitOf tenantId a).value (m.counterAt now tenantId a) := by
  rw [checkQuota]
  dsimp only
  split
  · next h => exact (congrArg not h).symm
  · next h => exact (congrArg not (Bool.eq_false_of_not_eq_true h)).symm

/-! ### Limits -/

theorem limitOf_setQuota (t tenantId : String) (quota : TenantQuota (Option Limit))
    (a : QuotaAction) (m : QuotaManager) :
    (m.setQuota t quota).limitOf tenantId a =
      if t = tenantId then (quota.limit a).getD (DEFAULT_QUOTA.limit a)
      else m.limitOf tenantId a := by
  rw [limitOf, getQuota, setQuota, OrderedMap.get?_set]
  split
  · simp
  · rfl

/-! ### Every history -/

theorem timely_create (now : Nat) (defaultQuota : TenantQuota (Option Limit)) :
    (create defaultQuota).Timely now where
  hour _ _ h := nomatch (OrderedMap.get?_empty _).symm.trans h
  day _ _ h := nomatch (OrderedMap.get?_empty _).symm.trans h
  started _ _ h := nomatch (OrderedMap.get?_empty _).symm.trans h

theorem Timely.resetCounters (h : m.Timely now) (reset : QuotaUsage JsNumber → QuotaUsage JsNumber)
    (tenantId : String) :
    { m with usage := QuotaManager.resetCounters reset tenantId m.usage }.Timely now where
  hour := h.hour
  day := h.day
  started t u hu := by
    rw [get?_resetCounters] at hu
    split at hu
    · obtain ⟨u', hu', -⟩ := Option.map_eq_some_iff.mp hu
      exact h.started t u' hu'
    · exact h.started t u hu

theorem Timely.removeTenant (h : m.Timely now) (tenantId : String) :
    (m.removeTenant tenantId).Timely now where
  hour t k hk := by
    rw [QuotaManager.removeTenant, OrderedMap.get?_delete] at hk
    split at hk
    · cases hk
    · exact h.hour t k hk
  day t k hk := by
    rw [QuotaManager.removeTenant, OrderedMap.get?_delete] at hk
    split at hk
    · cases hk
    · exact h.day t k hk
  started t u hu := by
    rw [QuotaManager.removeTenant, OrderedMap.get?_delete] at hu
    simp only [QuotaManager.removeTenant, OrderedMap.get?_delete]
    split at hu
    · cases hu
    · next ht => simpa [ht] using h.started t u hu

end QuotaManager

open QuotaManager in
theorem QuotaState.timely_step (s : QuotaState) (call : Nat × QuotaInput)
    (h : s.manager.Timely s.now) : (s.step call).manager.Timely (s.step call).now := by
  have hnow : s.manager.Timely (s.now + call.1) := h.mono (Nat.le_add_right ..)
  obtain ⟨elapsed, input⟩ := call
  cases input with
  | setQuota tenantId quota => exact ⟨hnow.hour, hnow.day, hnow.started⟩
  | getUsage tenantId => exact hnow.autoResetIfStale tenantId
  | checkQuota tenantId action => exact hnow.autoResetIfStale tenantId
  | recordUsage tenantId delta => exact hnow.recordUsage tenantId delta
  | resetHourly tenantId => exact hnow.resetCounters .resetHourly tenantId
  | resetDaily tenantId => exact hnow.resetCounters .resetDaily tenantId
  | removeTenant tenantId => exact hnow.removeTenant tenantId

/-- After every history of a new manager, its boundaries are not ahead of the clock. -/
theorem QuotaState.timely_run (now : Nat) (defaultQuota : TenantQuota (Option Limit))
    (history : List (Nat × QuotaInput)) :
    let s := Run.run QuotaState.step ⟨now, QuotaManager.create defaultQuota⟩ history
    s.manager.Timely s.now :=
  Run.run_invariant QuotaState.timely_step history (QuotaManager.timely_create now defaultQuota)

end KirkForge
