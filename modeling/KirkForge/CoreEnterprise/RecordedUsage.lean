import KirkForge.CoreEnterprise.QuotaCounters

/-!
# Usage that is recorded after a check

The usage of a tenant whose units are each recorded right after a successful check. What a check
sees are the units recorded in the hour or the day of the check, and there are never more of them
than the quota rounded up.
-/

namespace KirkForge

open QuotaManager (hourOf dayOf lapses Timely)

/-- One unit of an action. -/
def QuotaUsage.unit (a : QuotaAction) : QuotaUsage (Option JsNumber) where
  concurrentTasks := if a = .concurrentTask then some 1 else none
  storageMb := if a = .storage then some 1 else none
  observationCount := if a = .observation then some 1 else none
  dailyTokens := if a = .tokenSpend then some 1 else none
  hourlyToolInvocations := if a = .toolInvocation then some 1 else none
  hourlyVerifyRuns := if a = .verifyRun then some 1 else none
  hourlyCorrections := if a = .correction then some 1 else none

/-- The hour or the day of a time, for an action that is counted by the hour or by the day. -/
def QuotaAction.period (a : QuotaAction) (time : Nat) : Nat :=
  if a.isHourly then hourOf time else if a.isDaily then dayOf time else 0

/-- What has happened to a tenant: the action of a successful check that has not been followed by
another check or by a record, the time of the last check, and the units recorded, latest first. -/
structure UsageHistory where
  state : QuotaState
  checked : Option QuotaAction := none
  checkedAt : Option Nat := none
  units : List (Nat × QuotaAction) := []

namespace UsageHistory

def step (tenantId : String) (h : UsageHistory) (call : Nat × QuotaInput) : UsageHistory :=
  let now := h.state.now + call.1
  let state := h.state.step call
  match call.2 with
  | .checkQuota t a =>
    if t = tenantId then
      { h with
        state
        checked := if (h.state.manager.checkQuota now t a).2.isNone then some a else none
        checkedAt := some now }
    else { h with state }
  | .recordUsage t _ =>
    if t = tenantId then
      { h with state, checked := none, units := h.checked.toList.map (now, ·) ++ h.units }
    else { h with state }
  | _ => { h with state }

/-- The quota of the tenant stays, and it records a unit only right after a successful check for it.
Other tenants may do anything. -/
def Allowed (tenantId : String) (h : UsageHistory) (call : Nat × QuotaInput) : Prop :=
  match call.2 with
  | .setQuota t _ | .resetHourly t | .resetDaily t | .removeTenant t => t ≠ tenantId
  | .recordUsage t delta => t = tenantId → ∃ a, h.checked = some a ∧ delta = .unit a
  | .getUsage _ | .checkQuota _ _ => True

/-- The units of an action recorded in the period of a time. -/
def used (h : UsageHistory) (a : QuotaAction) (time : Nat) : Nat :=
  h.units.countP fun u => u.2 = a ∧ a.period u.1 = a.period time

def limit (tenantId : String) (h : UsageHistory) (a : QuotaAction) : JsNumber :=
  (h.state.manager.limitOf tenantId a).value

/-- The counter of an action that a check sees. -/
def seen (tenantId : String) (h : UsageHistory) (now : Nat) (a b : QuotaAction) : JsNumber :=
  (((h.state.manager.checkQuota now tenantId a).1.usage.get? tenantId).getD .zero).counter b

/-- The quotas are respected so far, and by a check that comes next. -/
structure Respected (tenantId : String) (h : UsageHistory) : Prop where
  /-- No more units than a whole number that the quota does not exceed. -/
  bounded : ∀ a time (k : Nat), JsNumber.le (h.limit tenantId a) k = true → h.used a time ≤ k
  passes : ∀ now, h.state.now ≤ now → ∀ a,
    (h.state.manager.checkQuota now tenantId a).2.isNone =
      !JsNumber.le (h.limit tenantId a) (h.used a now : Nat)
  counted : ∀ now, h.state.now ≤ now → ∀ a b, h.seen tenantId now a b = (h.used b now : Nat)
  /-- The first check after a boundary sees no unit but one that was checked before the boundary and
  recorded after it. -/
  first : ∀ now, h.state.now ≤ now → ∀ b, (∀ time ∈ h.checkedAt, b.period time < b.period now) →
    h.used b now = 0 ∨ h.used b now = 1 ∧ ∃ time, h.units.head? = some (time, b) ∧
      b.period time = b.period now
  unchanged : ∀ now, h.state.now ≤ now → ∀ a b, ¬lapses b h.state.now now →
    h.seen tenantId now a b = h.state.manager.counterAt h.state.now tenantId b

end UsageHistory

/-! ### Units -/

@[simp] theorem QuotaUsage.counter_unit (a b : QuotaAction) :
    (unit a).counter b = if a = b then some 1 else none := by
  cases b <;> rfl

theorem JsNumber.natCast_succ (n : Nat) : (n : JsNumber) + 1 = (n + 1 : Nat) := by
  change finite (n + ((1 : Nat) : ℚ)) = finite ((n + 1 : Nat) : ℚ)
  rw [Nat.cast_add]

theorem QuotaAction.period_mono (a : QuotaAction) {time now : Nat} (h : time ≤ now) :
    a.period time ≤ a.period now := by
  rw [period, period]
  split
  · exact Nat.div_le_div_right h
  · split
    · exact Nat.div_le_div_right h
    · exact Nat.le_refl 0

theorem lapses_iff (a : QuotaAction) (now now' : Nat) :
    lapses a now now' ↔ a.period now < a.period now' := by
  cases a <;> simp [lapses, QuotaAction.period, QuotaAction.isHourly, QuotaAction.isDaily]

namespace QuotaManager

variable {t tenantId : String}

/-- What is done to the counters of another tenant does not matter. -/
theorem counterAt_resetCounters (reset : QuotaUsage JsNumber → QuotaUsage JsNumber)
    (h : t ≠ tenantId) (now : Nat) (a : QuotaAction) (m : QuotaManager) :
    { m with usage := resetCounters reset t m.usage }.counterAt now tenantId a =
      m.counterAt now tenantId a := by
  rw [counterAt_eq, counterAt_eq, get?_resetCounters, if_neg h]

theorem counterAt_removeTenant (h : t ≠ tenantId) (now : Nat) (a : QuotaAction)
    (m : QuotaManager) : (m.removeTenant t).counterAt now tenantId a =
      m.counterAt now tenantId a := by
  rw [counterAt_eq, counterAt_eq]
  simp only [removeTenant, OrderedMap.get?_delete, if_neg h]

theorem limitOf_removeTenant (h : t ≠ tenantId) (a : QuotaAction) (m : QuotaManager) :
    (m.removeTenant t).limitOf tenantId a = m.limitOf tenantId a := by
  rw [limitOf, limitOf, getQuota, getQuota, removeTenant, OrderedMap.get?_delete, if_neg h]

end QuotaManager

namespace UsageHistory

variable {tenantId : String} {h : UsageHistory} {call : Nat × QuotaInput} {a b : QuotaAction}
  {now : Nat}

theorem limitOf_step (hok : Allowed tenantId h call) (a : QuotaAction) :
    (h.state.step call).manager.limitOf tenantId a = h.state.manager.limitOf tenantId a := by
  obtain ⟨elapsed, input⟩ := call
  cases input with
  | setQuota t quota =>
    have hne : t ≠ tenantId := hok
    exact (QuotaManager.limitOf_setQuota ..).trans (if_neg hne)
  | removeTenant t => exact QuotaManager.limitOf_removeTenant hok a _
  | _ => rfl

/-- Only a record of the tenant changes its counters, apart from the resets that are due. -/
theorem counterAt_step (hok : Allowed tenantId h call)
    (hrecord : ∀ t delta, call.2 = .recordUsage t delta → t ≠ tenantId) (a : QuotaAction) :
    (h.state.step call).manager.counterAt (h.state.step call).now tenantId a =
      h.state.manager.counterAt (h.state.step call).now tenantId a := by
  obtain ⟨elapsed, input⟩ := call
  cases input with
  | setQuota t quota => rfl
  | getUsage t => exact QuotaManager.counterAt_autoResetIfStale ..
  | checkQuota t a => exact QuotaManager.counterAt_autoResetIfStale ..
  | recordUsage t delta =>
    exact (QuotaManager.counterAt_recordUsage ..).trans (if_neg (hrecord t delta rfl))
  | resetHourly t => exact QuotaManager.counterAt_resetCounters _ hok ..
  | resetDaily t => exact QuotaManager.counterAt_resetCounters _ hok ..
  | removeTenant t => exact QuotaManager.counterAt_removeTenant hok ..

/-! ### The invariant -/

/-- The counters are the units recorded, which the quotas bound. All but the last unit have been
followed by a check, and a successful check leaves room for a unit. -/
structure Inv (tenantId : String) (h : UsageHistory) : Prop where
  timely : h.state.manager.Timely h.state.now
  past : ∀ u ∈ h.units, u.1 ≤ h.state.now
  counted : ∀ a, h.state.manager.counterAt h.state.now tenantId a = (h.used a h.state.now : Nat)
  bounded : ∀ a time (k : Nat), JsNumber.le (h.limit tenantId a) k = true → h.used a time ≤ k
  room : ∀ a, h.checked = some a → ∀ k : Nat, JsNumber.le (h.limit tenantId a) k = true →
    h.used a h.state.now < k
  followed : ∀ u ∈ h.units.tail, ∃ time ∈ h.checkedAt, u.1 ≤ time
  checked : h.checked.isSome → ∀ u ∈ h.units, ∃ time ∈ h.checkedAt, u.1 ≤ time

/-- The units of an action that are recorded lapse with its counter. -/
theorem used_later (hpast : ∀ u ∈ h.units, u.1 ≤ h.state.now) (hle : h.state.now ≤ now)
    (a : QuotaAction) :
    h.used a now = if lapses a h.state.now now then 0 else h.used a h.state.now := by
  rw [used, used]
  split
  · next hlapse =>
    rw [List.countP_eq_zero]
    intro u hu hsame
    have hsame := (of_decide_eq_true hsame).2
    have hearlier := a.period_mono (hpast u hu)
    have hlt := (lapses_iff ..).mp hlapse
    omega
  · next hlapse =>
    rw [lapses_iff, Nat.not_lt] at hlapse
    rw [(a.period_mono hle).antisymm hlapse]

theorem Inv.counted_later (I : Inv tenantId h) (hle : h.state.now ≤ now) (a : QuotaAction) :
    h.state.manager.counterAt now tenantId a = (h.used a now : Nat) := by
  rw [QuotaManager.counterAt_later I.timely hle, used_later I.past hle, I.counted]
  split <;> rfl

theorem Inv.room_later (I : Inv tenantId h) (hle : h.state.now ≤ now) (ha : h.checked = some a)
    {k : Nat} (hk : JsNumber.le (h.limit tenantId a) k = true) : h.used a now < k := by
  have hroom := I.room a ha k hk
  rw [used_later I.past hle]
  split
  · exact Nat.zero_lt_of_lt hroom
  · exact hroom

/-- A successful check leaves room. -/
theorem Inv.room_of_check (I : Inv tenantId h) (hle : h.state.now ≤ now)
    (hcheck : (h.state.manager.checkQuota now tenantId a).2.isNone = true) {k : Nat}
    (hk : JsNumber.le (h.limit tenantId a) k = true) : h.used a now < k := by
  rw [QuotaManager.checkQuota_isNone, I.counted_later hle, Bool.not_eq_true'] at hcheck
  by_contra hge
  have hle : JsNumber.le (h.limit tenantId a) (h.used a now : Nat) = true := by
    obtain ⟨hlimit, -⟩ := JsNumber.not_nan_of_le hk
    rcases hq : h.limit tenantId a with q | _ | _ | _
    · rw [hq] at hk
      have hqk : q ≤ (k : ℚ) := of_decide_eq_true hk
      exact decide_eq_true (hqk.trans (Nat.cast_le.mpr (Nat.le_of_not_lt hge)))
    · rw [hq] at hk
      cases hk
    · rfl
    · exact absurd hq hlimit
  exact Bool.false_ne_true (hcheck.symm.trans hle)

theorem now_le_step (h : UsageHistory) (call : Nat × QuotaInput) :
    h.state.now ≤ (h.state.step call).now := Nat.le_add_right ..

/-- What is no record of the tenant. -/
theorem Inv.other (I : Inv tenantId h) (hok : Allowed tenantId h call)
    (hrecord : ∀ t delta, call.2 = .recordUsage t delta → t ≠ tenantId) :
    Inv tenantId { h with state := h.state.step call } where
  timely := QuotaState.timely_step _ _ I.timely
  past u hu := (I.past u hu).trans (now_le_step h call)
  counted a := (counterAt_step hok hrecord a).trans (I.counted_later (now_le_step h call) a)
  bounded a time k hk := by
    rw [limit, limitOf_step hok] at hk
    exact I.bounded a time k hk
  room a ha k hk := by
    rw [limit, limitOf_step hok] at hk
    exact I.room_later (now_le_step h call) ha hk
  followed := I.followed
  checked := I.checked

/-- A check of the tenant. -/
theorem Inv.check (I : Inv tenantId h) (elapsed : Nat) (a : QuotaAction) :
    Inv tenantId (h.step tenantId (elapsed, .checkQuota tenantId a)) := by
  have hother : Inv tenantId { h with state := h.state.step (elapsed, .checkQuota tenantId a) } :=
    I.other trivial fun _ _ heq => nomatch heq
  have hpast (u : Nat × QuotaAction) (hu : u ∈ h.units) :
      ∃ time ∈ some (h.state.now + elapsed), u.1 ≤ time :=
    ⟨_, rfl, (I.past u hu).trans (Nat.le_add_right ..)⟩
  rw [step]
  dsimp only
  rw [if_pos rfl]
  exact
    { timely := hother.timely
      past := hother.past
      counted := hother.counted
      bounded := hother.bounded
      room := by
        intro b hb k hk
        dsimp only at hb
        split at hb
        · next hcheck =>
          cases hb
          exact I.room_of_check (Nat.le_add_right ..) hcheck hk
        · cases hb
      followed := fun u hu => hpast u (List.mem_of_mem_tail hu)
      checked := fun _ => hpast }

theorem step_record (ha : h.checked = some a) (elapsed : Nat)
    (delta : QuotaUsage (Option JsNumber)) :
    h.step tenantId (elapsed, .recordUsage tenantId delta) =
      { h with
        state := h.state.step (elapsed, .recordUsage tenantId delta)
        checked := none
        units := (h.state.now + elapsed, a) :: h.units } := by
  rw [step]
  dsimp only
  rw [if_pos rfl, ha]
  rfl

theorem used_cons (h : UsageHistory) (state : QuotaState) (time : Nat) (a b : QuotaAction)
    (now : Nat) :
    used { h with state, checked := none, units := (time, a) :: h.units } b now =
      if a = b ∧ b.period time = b.period now then h.used b now + 1 else h.used b now := by
  rw [used, List.countP_cons]
  by_cases hsame : a = b ∧ b.period time = b.period now
  · rw [if_pos hsame, if_pos (decide_eq_true hsame)]
    rfl
  · rw [if_neg hsame, if_neg (by simpa using hsame)]
    rfl

/-- A record of the tenant. -/
theorem Inv.record (I : Inv tenantId h) (elapsed : Nat) (ha : h.checked = some a) :
    Inv tenantId (h.step tenantId (elapsed, .recordUsage tenantId (.unit a))) := by
  have hle : h.state.now ≤ h.state.now + elapsed := Nat.le_add_right ..
  rw [step_record ha]
  exact
    { timely := QuotaState.timely_step h.state (elapsed, .recordUsage tenantId (.unit a)) I.timely
      past := by
        intro u hu
        rcases List.mem_cons.mp hu with rfl | hu
        · exact Nat.le_refl _
        · exact (I.past u hu).trans hle
      counted := by
        intro b
        change QuotaManager.counterAt (h.state.now + elapsed) tenantId b
          (h.state.manager.recordUsage (h.state.now + elapsed) tenantId (.unit a)) = _
        rw [QuotaManager.counterAt_recordUsage, if_pos rfl, I.counted_later hle,
          QuotaUsage.counter_unit]
        dsimp only
        rw [used_cons]
        by_cases hab : a = b
        · rw [if_pos hab, if_pos ⟨hab, rfl⟩]
          exact JsNumber.natCast_succ _
        · rw [if_neg hab, if_neg fun hsame => hab hsame.1]
          exact JsNumber.add_zero _
      bounded := by
        intro b time k hk
        rw [used_cons]
        split
        · next hsame =>
          obtain ⟨rfl, hperiod⟩ := hsame
          have hroom := I.room_later hle ha hk
          rwa [used, hperiod] at hroom
        · exact I.bounded b time k hk
      room := nofun
      followed := I.checked (ha ▸ rfl)
      checked := nofun }

theorem Inv.step (I : Inv tenantId h) (hok : Allowed tenantId h call) :
    Inv tenantId (h.step tenantId call) := by
  obtain ⟨elapsed, input⟩ := call
  cases input with
  | checkQuota t a =>
    by_cases ht : t = tenantId
    · subst ht
      exact I.check elapsed a
    · rw [UsageHistory.step]
      dsimp only
      rw [if_neg ht]
      exact I.other hok fun _ _ heq => nomatch heq
  | recordUsage t delta =>
    by_cases ht : t = tenantId
    · subst ht
      obtain ⟨a, ha, rfl⟩ := hok rfl
      exact I.record elapsed ha
    · rw [UsageHistory.step]
      dsimp only
      rw [if_neg ht]
      refine I.other hok fun t' delta' heq => ?_
      cases heq
      exact ht
  | _ => exact I.other hok fun _ _ heq => nomatch heq

/-! ### Every history -/

/-- A manager in which nothing but quotas has been set. -/
def start (now : Nat) (quotas : OrderedMap String (TenantQuota Limit))
    (defaultQuota : TenantQuota Limit) : UsageHistory where
  state := ⟨now, { quotas, defaultQuota }⟩

theorem Inv.start (tenantId : String) (now : Nat)
    (quotas : OrderedMap String (TenantQuota Limit)) (defaultQuota : TenantQuota Limit) :
    Inv tenantId (UsageHistory.start now quotas defaultQuota) where
  timely :=
    { hour := fun _ _ h => nomatch h
      day := fun _ _ h => nomatch h
      started := fun _ _ h => nomatch h }
  past _ hu := absurd hu List.not_mem_nil
  counted a := by
    rw [QuotaManager.counterAt_eq]
    change (if _ then (0 : JsNumber) else QuotaUsage.zero.counter a) = 0
    rw [QuotaUsage.counter_zero, ite_self]
  bounded _ _ _ _ := Nat.zero_le _
  room _ ha := nomatch ha
  followed _ hu := absurd hu List.not_mem_nil
  checked h := nomatch h

theorem seen_eq (tenantId : String) (h : UsageHistory) (now : Nat) (a b : QuotaAction) :
    h.seen tenantId now a b = h.state.manager.counterAt now tenantId b := rfl

/-- Only the last unit has no check after it. -/
theorem Inv.first (I : Inv tenantId h)
    (hfirst : ∀ time ∈ h.checkedAt, b.period time < b.period now) :
    h.used b now = 0 ∨ h.used b now = 1 ∧ ∃ time, h.units.head? = some (time, b) ∧
      b.period time = b.period now := by
  cases hunits : h.units with
  | nil =>
    left
    rw [used, hunits]
    rfl
  | cons u units =>
    have hrest : units.countP (fun u => u.2 = b ∧ b.period u.1 = b.period now) = 0 := by
      rw [List.countP_eq_zero]
      intro u' hu' hsame
      obtain ⟨time, htime, hle⟩ := I.followed u' (by rwa [hunits])
      have hperiod := (of_decide_eq_true hsame).2
      have hearlier := b.period_mono hle
      have hlt := hfirst time htime
      omega
    rw [used, hunits, List.countP_cons, hrest]
    split
    · next hsame =>
      obtain ⟨rfl, hperiod⟩ := of_decide_eq_true hsame
      exact .inr ⟨rfl, u.1, rfl, hperiod⟩
    · exact .inl rfl

theorem Inv.quotas (I : Inv tenantId h) : Respected tenantId h where
  bounded := I.bounded
  passes now hle a := by rw [QuotaManager.checkQuota_isNone, I.counted_later hle, limit]
  counted now hle a b := I.counted_later hle b
  first now _ _ hfirst := I.first hfirst
  unchanged now hle a b hlapse := by
    rw [seen_eq, QuotaManager.counterAt_later I.timely hle, if_neg hlapse]

/-- The quotas are respected throughout every history in which units are recorded after checks. -/
theorem respected (tenantId : String) (now : Nat)
    (quotas : OrderedMap String (TenantQuota Limit)) (defaultQuota : TenantQuota Limit)
    (calls : List (Nat × QuotaInput))
    (hcalls : Run.AllSteps (step tenantId) (Allowed tenantId)
      (UsageHistory.start now quotas defaultQuota) calls) :
    Run.AllStates (step tenantId) (Respected tenantId)
      (UsageHistory.start now quotas defaultQuota) calls := by
  have hinv := Run.allStates_of_invariant (fun h call (I : Inv tenantId h) hok => I.step hok)
    (Inv.start tenantId now quotas defaultQuota) hcalls
  exact hinv.mono fun h I => I.quotas

/-- A unit of an action with the default quotas. -/
theorem respected_unit :
    Run.AllStates (step "t") (Respected "t") (start 0 ∅ DEFAULT_QUOTA)
      [(0, .checkQuota "t" .correction), (0, .recordUsage "t" (.unit .correction))] :=
  respected "t" 0 ∅ DEFAULT_QUOTA _
    ⟨trivial, fun _ => ⟨.correction, by decide +kernel, rfl⟩, trivial⟩

/-- With a quota of two and a half corrections three are recorded. A unit whose check was before the
hour is seen by the first check of the hour. -/
theorem quota_rounded_up :
    (let quota : TenantQuota Limit :=
        { DEFAULT_QUOTA with maxCorrectionsPerHour := .number (.finite (5 / 2)) }
      let use := [(0, .checkQuota "t" .correction), (0, .recordUsage "t" (.unit .correction))]
      let calls := use ++ use ++ use
      Run.AllSteps (step "t") (Allowed "t") (start 0 ∅ quota) calls ∧
        JsNumber.gt ((Run.run (step "t") (start 0 ∅ quota) calls).used .correction 0 : Nat)
          (.finite (5 / 2)) = true) ∧
    (let calls := [(0, .checkQuota "t" .correction), (3600000, .recordUsage "t" (.unit .correction))]
      let h := Run.run (step "t") (start 0 ∅ DEFAULT_QUOTA) calls
      Run.AllSteps (step "t") (Allowed "t") (start 0 ∅ DEFAULT_QUOTA) calls ∧
        h.checkedAt = some 0 ∧ h.seen "t" 3600000 .correction .correction = 1) := by
  refine ⟨⟨⟨trivial, fun _ => ⟨.correction, by decide +kernel, rfl⟩, trivial,
      fun _ => ⟨.correction, by decide +kernel, rfl⟩, trivial,
      fun _ => ⟨.correction, by decide +kernel, rfl⟩, trivial⟩, by decide +kernel⟩,
    ⟨trivial, fun _ => ⟨.correction, by decide +kernel, rfl⟩, trivial⟩, by decide +kernel,
    by decide +kernel⟩

end UsageHistory

end KirkForge
