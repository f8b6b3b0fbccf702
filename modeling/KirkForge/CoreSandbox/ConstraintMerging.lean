import KirkForge.CoreSandbox.Runner

/-!
# Merged constraints that are valid

`validateConstraints` relates fields to each other that `mergeConstraints` merges one by one: a
switch that is off and the list behind it, and the two lists of hosts. A base and a tenant that are
both accepted merge into constraints that are accepted exactly under `MergeClosed`; the limits are
never in the way.
-/

namespace KirkForge

/-- The constraints, as an argument of `validateConstraints`. -/
def RequiredConstraints.fields (c : RequiredConstraints) : SandboxConstraints where
  maxTimeMs := some c.maxTimeMs
  maxMemoryMb := some c.maxMemoryMb
  maxCpuMs := some c.maxCpuMs
  maxProcesses := some c.maxProcesses
  networkAllowed := some c.networkAllowed
  networkAllowlist := some c.networkAllowlist
  networkDenylist := some c.networkDenylist
  shellAllowed := some c.shellAllowed
  allowedCommands := some c.allowedCommands
  allowedReadPaths := some c.allowedReadPaths
  allowedWritePaths := some c.allowedWritePaths
  redactSecrets := some c.redactSecrets
  maxOutputBytes := some c.maxOutputBytes

@[simp] theorem withDefaults_fields (c : RequiredConstraints) : withDefaults c.fields = c := rfl

/-- `validateConstraints` accepts the constraints. -/
def Accepts (c : SandboxConstraints) : Prop := ∃ k, validateConstraints c = .ok k

/-- What is checked of the constraints. -/
structure RequiredConstraints.Valid (c : RequiredConstraints) : Prop where
  time : JsNumber.gt 1000 c.maxTimeMs = false
  memory : JsNumber.gt 16 c.maxMemoryMb = false
  cpu : JsNumber.gt 1000 c.maxCpuMs = false
  processes : JsNumber.gt 0 c.maxProcesses = false
  network : c.networkAllowed = false → c.networkAllowlist = []
  shell : c.shellAllowed = false → c.allowedCommands = []
  hosts : ∀ e ∈ c.networkAllowlist, e ∉ c.networkDenylist

theorem not_accepts_of_error {c : SandboxConstraints} {message : String}
    (h : validateConstraints c = invalidConstraints message) : ¬Accepts c := by
  rintro ⟨k, hk⟩
  rw [h] at hk
  cases hk

theorem switch_and_list {on : Bool} {list : List String} :
    (!on && decide (0 < list.length)) = true ↔ ¬(on = false → list = []) := by
  cases on <;> simp [List.length_pos_iff]

/-- What is accepted are valid constraints, with the defaults for what is left out. -/
theorem validateConstraints_eq_ok_iff {c : SandboxConstraints} {k : RequiredConstraints} :
    validateConstraints c = .ok k ↔ (withDefaults c).Valid ∧ k = withDefaults c := by
  have hhosts : (withDefaults c).networkAllowlist.filter (· ∈ (withDefaults c).networkDenylist) =
      [] ↔ ∀ e ∈ (withDefaults c).networkAllowlist, e ∉ (withDefaults c).networkDenylist := by
    simp only [List.filter_eq_nil_iff, decide_eq_true_eq]
  simp only [validateConstraints, invalidConstraints, ExceptRules.ite_error_eq_ok, switch_and_list,
    not_not]
  constructor
  · rintro ⟨htime, hmemory, hcpu, hprocesses, hnetwork, hshell, h⟩
    split at h
    · next hnil =>
      refine ⟨?_, (Except.ok.inj h).symm⟩
      exact ⟨Bool.eq_false_iff.mpr htime, Bool.eq_false_iff.mpr hmemory, Bool.eq_false_iff.mpr hcpu,
        Bool.eq_false_iff.mpr hprocesses, hnetwork, hshell, hhosts.mp hnil⟩
    · cases h
  · rintro ⟨h, rfl⟩
    refine ⟨Bool.eq_false_iff.mp h.time, Bool.eq_false_iff.mp h.memory, Bool.eq_false_iff.mp h.cpu,
      Bool.eq_false_iff.mp h.processes, h.network, h.shell, ?_⟩
    rw [hhosts.mpr h.hosts]

theorem accepts_iff {c : SandboxConstraints} : Accepts c ↔ (withDefaults c).Valid := by
  constructor
  · rintro ⟨k, hk⟩
    exact (validateConstraints_eq_ok_iff.mp hk).1
  · intro h
    exact ⟨_, validateConstraints_eq_ok_iff.mpr ⟨h, rfl⟩⟩

/-! ### The fields of a merge -/

/-- A limit that both sides keep is kept. -/
theorem gt_mergeLimit {n base d : JsNumber} {tenant : Option JsNumber}
    (hbase : JsNumber.gt n base = false) (htenant : JsNumber.gt n (tenant.getD d) = false) :
    JsNumber.gt n (mergeLimit base tenant) = false := by
  cases tenant with
  | none => exact hbase
  | some limit =>
    rw [mergeLimit, JsNumber.min]
    split
    · simp [JsNumber.gt]
    · split
      · exact hbase
      · exact htenant

/-- The tenant switches nothing off whose list it leaves to the base, and lists nothing where the
base is switched off. -/
structure SwitchClosed (on : Bool) (list : List String) (tenantOn : Option Bool)
    (tenantList : Option (List String)) : Prop where
  left : tenantOn = some false → tenantList = none → list = []
  listed : on = false → tenantList.getD [] = []

theorem merged_switch_iff {on : Bool} {list : List String} {tenantOn : Option Bool}
    {tenantList : Option (List String)} (hbase : on = false → list = [])
    (htenant : tenantOn.getD false = false → tenantList.getD [] = []) :
    ((on && tenantOn.getD true) = false → mergeList list tenantList = []) ↔
      SwitchClosed on list tenantOn tenantList := by
  constructor
  · intro h
    constructor
    · rintro rfl rfl
      exact h (Bool.and_false on)
    · rintro rfl
      have hmerge := h (Bool.false_and _)
      rw [hbase rfl] at hmerge
      cases tenantList with
      | none => rfl
      | some entries => simpa [mergeList] using hmerge
  · rintro ⟨hleft, hlisted⟩ hoff
    cases tenantList with
    | none =>
      cases on with
      | false => exact hbase rfl
      | true =>
        refine hleft ?_ rfl
        cases tenantOn with
        | none => cases hoff
        | some b => exact congrArg some hoff
    | some entries =>
      have hnil : entries = [] := by
        cases on with
        | false => exact hlisted rfl
        | true =>
          refine htenant ?_
          cases tenantOn with
          | none => rfl
          | some b => exact hoff
      rw [hnil]
      rfl

/-- The tenant denies no host of a list that it leaves to the base, and where the base has no list,
it allows no host that the base denies. -/
structure HostsClosed (base : RequiredConstraints) (tenant : SandboxConstraints) : Prop where
  left : tenant.networkAllowlist = none →
    ∀ e ∈ base.networkAllowlist, e ∉ tenant.networkDenylist.getD []
  listed : base.networkAllowlist = [] →
    ∀ e ∈ tenant.networkAllowlist.getD [], e ∉ base.networkDenylist

theorem merged_hosts_disjoint_iff {base : RequiredConstraints} {tenant : SandboxConstraints}
    (hbase : ∀ e ∈ base.networkAllowlist, e ∉ base.networkDenylist)
    (htenant : ∀ e ∈ tenant.networkAllowlist.getD [], e ∉ tenant.networkDenylist.getD []) :
    (∀ e ∈ (mergeConstraints base tenant).networkAllowlist,
        e ∉ (mergeConstraints base tenant).networkDenylist) ↔ HostsClosed base tenant := by
  have hdeny (e : String) : e ∉ (mergeConstraints base tenant).networkDenylist ↔
      e ∉ base.networkDenylist ∧ e ∉ tenant.networkDenylist.getD [] := by
    rw [mergeConstraints, List.mem_eraseDups, List.mem_append, not_or]
  have hallow : (mergeConstraints base tenant).networkAllowlist =
    mergeList base.networkAllowlist tenant.networkAllowlist := rfl
  simp only [hdeny, hallow]
  cases hlist : tenant.networkAllowlist with
  | none =>
    constructor
    · intro h
      exact ⟨fun _ e he => (h e he).2, fun _ e he => by rw [hlist] at he; cases he⟩
    · intro h e he
      exact ⟨hbase e he, h.left hlist e he⟩
  | some entries =>
    rw [hlist] at htenant
    constructor
    · intro h
      refine ⟨fun hnone => ?_, fun hnil e he => ?_⟩
      · rw [hlist] at hnone
        cases hnone
      · rw [hlist] at he
        exact (h e (List.mem_filter.mpr ⟨he, by simp [hnil]⟩)).1
    · intro h e he
      obtain ⟨hmem, hin⟩ := List.mem_filter.mp he
      refine ⟨?_, htenant e hmem⟩
      rw [Bool.or_eq_true, decide_eq_true_eq, decide_eq_true_eq, List.length_eq_zero_iff] at hin
      obtain hin | hnil := hin
      · exact hbase e hin
      · exact h.listed hnil e (by rw [hlist]; exact hmem)

/-! ### The merge -/

/-- None of the inputs on which the merge is invalid. -/
structure MergeClosed (base : RequiredConstraints) (tenant : SandboxConstraints) : Prop where
  network : SwitchClosed base.networkAllowed base.networkAllowlist tenant.networkAllowed
    tenant.networkAllowlist
  shell : SwitchClosed base.shellAllowed base.allowedCommands tenant.shellAllowed
    tenant.allowedCommands
  hosts : HostsClosed base tenant

theorem accepts_mergeConstraints_iff {base : RequiredConstraints} {tenant : SandboxConstraints}
    (hbase : Accepts base.fields) (htenant : Accepts tenant) :
    Accepts (mergeConstraints base tenant).fields ↔ MergeClosed base tenant := by
  rw [accepts_iff, withDefaults_fields] at hbase ⊢
  rw [accepts_iff] at htenant
  have hnetwork := merged_switch_iff hbase.network htenant.network
  have hshell := merged_switch_iff hbase.shell htenant.shell
  have hhosts := merged_hosts_disjoint_iff hbase.hosts htenant.hosts
  constructor
  · intro h
    exact ⟨hnetwork.mp h.network, hshell.mp h.shell, hhosts.mp h.hosts⟩
  · intro h
    exact {
      time := gt_mergeLimit hbase.time htenant.time
      memory := gt_mergeLimit hbase.memory htenant.memory
      cpu := gt_mergeLimit hbase.cpu htenant.cpu
      processes := gt_mergeLimit hbase.processes htenant.processes
      network := hnetwork.mpr h.network
      shell := hshell.mpr h.shell
      hosts := hhosts.mpr h.hosts }

/-- A base that allows two hosts. -/
def twoHosts : RequiredConstraints :=
  { DEFAULT_CONSTRAINTS with
    networkAllowed := true
    networkAllowlist := ["api:443", "cdn:443"] }

theorem narrowed_hosts_accepted : Accepts (mergeConstraints twoHosts
    { networkAllowed := some true, networkAllowlist := some ["api:443"] }).fields :=
  (accepts_mergeConstraints_iff ⟨_, rfl⟩ ⟨_, rfl⟩).mpr
    ⟨⟨nofun, nofun⟩, ⟨fun _ _ => rfl, fun _ => rfl⟩, ⟨nofun, nofun⟩⟩

/-- A tenant that only switches the network off. -/
theorem switched_off_rejected : Accepts twoHosts.fields ∧
    Accepts { networkAllowed := some false } ∧
      ¬Accepts (mergeConstraints twoHosts { networkAllowed := some false }).fields :=
  ⟨⟨_, rfl⟩, ⟨_, rfl⟩, not_accepts_of_error rfl⟩

end KirkForge
