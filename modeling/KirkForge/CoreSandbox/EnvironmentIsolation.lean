import KirkForge.CoreSandbox.Runner

/-!
# The environment of a sandboxed process in enterprise mode

In enterprise mode `runSandboxed` spawns a process only if `ALLOW_UNSAFE_HOST_SANDBOX` is 1, and for
just that value it hands the whole environment of the parent on. So whatever is spawned in
enterprise mode sees the parent's variables, whether the configuration asks for them or not.
-/

namespace KirkForge

variable {host : RunnerHost} {parent : ProcessEnv} {config : SandboxRunConfig}

/-- The reasons for which nothing is spawned, whatever the environment. -/
inductive Refused (config : SandboxRunConfig) : Prop
  | constraints {e : SandboxError} (h : validateConstraints config.constraints = .error e)
  | command {c : RequiredConstraints} (hc : validateConstraints config.constraints = .ok c)
      (h : isCommandAllowed config.command c = false)
  | path {c : RequiredConstraints} (hc : validateConstraints config.constraints = .ok c)
      (hscan : config.skipArgPathScan = false) (h : scanArgsForPathViolations config.args c ≠ [])
  | secret (h : scanEnvForSecrets config.env ≠ [])
  | hook {e : SandboxError} (h : createSandboxContext config = .error e)

/-- Two parents that differ in other variables than the two that are looked at. -/
structure SameGates (parent parent' : ProcessEnv) : Prop where
  enterprise : parent'.get? "KIRKFORGE_ENTERPRISE_MODE" = parent.get? "KIRKFORGE_ENTERPRISE_MODE"
  unsafeHost : parent'.get? "ALLOW_UNSAFE_HOST_SANDBOX" = parent.get? "ALLOW_UNSAFE_HOST_SANDBOX"

/-- The environment of the process that is spawned, if one is. -/
def childEnv (host : RunnerHost) (parent : ProcessEnv) (config : SandboxRunConfig) :
    Option ProcessEnv :=
  (runSandboxed host parent config).toOption.map (·.env)

/-- Another value of any other variable makes no difference to the process. -/
def Isolated (host : RunnerHost) (parent : ProcessEnv) (config : SandboxRunConfig) : Prop :=
  ∀ parent', SameGates parent parent' → childEnv host parent' config = childEnv host parent config

theorem get?_spread (parent env : ProcessEnv) (key : String) :
    (spread parent env).get? key = (env.get? key).or (parent.get? key) := by
  have hset (m : ProcessEnv) (e : String × String) (k : String) :
      (m.set e.1 e.2).get? k = if e.1 = k then some e.2 else m.get? k :=
    OrderedMap.get?_set m e.1 k e.2
  rw [spread, OrderedMap.foldl_observe (o := fun k m => OrderedMap.get? m k)
    (g := fun _ v => some v) hset env.nodup]
  simp only [OrderedMap.get?]
  cases OrderedMap.lookup key env.entries <;> rfl

theorem Refused.of_valid {c : RequiredConstraints}
    (hc : validateConstraints config.constraints = .ok c) (h : Refused config) :
    isCommandAllowed config.command c = false ∨
      (config.skipArgPathScan = false ∧ scanArgsForPathViolations config.args c ≠ []) ∨
      scanEnvForSecrets config.env ≠ [] ∨ ∃ e, createSandboxContext config = .error e := by
  cases h with
  | constraints h =>
    rw [hc] at h
    cases h
  | command hc' h =>
    obtain rfl := Except.ok.inj (hc.symm.trans hc')
    exact .inl h
  | path hc' hscan h =>
    obtain rfl := Except.ok.inj (hc.symm.trans hc')
    exact .inr (.inl ⟨hscan, h⟩)
  | secret h => exact .inr (.inr (.inl h))
  | hook h => exact .inr (.inr (.inr ⟨_, h⟩))

theorem Admitted.not_refused {c : RequiredConstraints} (h : Admitted parent config c)
    (hargs : ArgsPass config c) (henterprise : isEnterpriseMode parent = true) :
    ¬Refused config := by
  intro hrefused
  obtain hcommand | ⟨hskip, hscan⟩ | hsecret | ⟨e, hcontext⟩ := hrefused.of_valid h.valid
  · exact nomatch hcommand.symm.trans h.command
  · exact hargs.elim (fun hskip' => nomatch hskip.symm.trans hskip') hscan
  · refine h.secrets.elim hsecret fun hmode => ?_
    exact nomatch hmode.1.symm.trans henterprise
  · obtain ⟨context, hcontext'⟩ := h.context
    exact nomatch hcontext.symm.trans hcontext'

/-- What is not refused passes all checks, once the gate is open. -/
theorem admitted_of_not_refused (h : ¬Refused config) (hhost : unsafeHostSandbox parent = true) :
    ∃ c, Admitted parent config c ∧ ArgsPass config c := by
  cases hvalid : validateConstraints config.constraints with
  | error e => exact absurd (.constraints hvalid) h
  | ok c =>
    refine ⟨c, ⟨hvalid, fun _ => hhost, ?_, ?_, ?_⟩, ?_⟩
    · exact Bool.of_not_eq_false fun hcommand => h (.command hvalid hcommand)
    · exact .inl (Decidable.not_not.mp fun hsecret => h (.secret hsecret))
    · cases hcontext : createSandboxContext config with
      | error e => exact absurd (.hook hcontext) h
      | ok context => exact ⟨context, rfl⟩
    · refine or_iff_not_imp_left.mpr fun hskip => ?_
      exact Decidable.not_not.mp fun hscan =>
        h (.path hvalid (Bool.eq_false_of_not_eq_true hskip) hscan)

/-- In enterprise mode a process is spawned only through the open gate, unless the configuration is
refused, and it gets everything. -/
theorem runSandboxed_enterprise (host : RunnerHost) (henterprise : isEnterpriseMode parent = true) :
    (∃ spawn, runSandboxed host parent config = .ok spawn ∧ unsafeHostSandbox parent = true ∧
      ¬Refused config ∧ spawn.env = spread parent config.env) ∨
    ((runSandboxed host parent config).toOption = none ∧
      (unsafeHostSandbox parent = false ∨ Refused config)) := by
  cases hrun : runSandboxed host parent config with
  | ok spawn =>
    obtain ⟨⟨c, h, hargs⟩, rfl⟩ := runSandboxed_eq_ok_iff.mp hrun
    have hhost := h.gate henterprise
    refine .inl ⟨_, rfl, hhost, h.not_refused hargs henterprise, ?_⟩
    simp [spawnOf, hhost]
  | error e =>
    refine .inr ⟨rfl, ?_⟩
    cases hhost : unsafeHostSandbox parent with
    | false => exact .inl rfl
    | true =>
      refine .inr (by_contra fun hrefused => ?_)
      have hok : runSandboxed host parent config = .ok (spawnOf host parent config) :=
        runSandboxed_eq_ok_iff.mpr ⟨admitted_of_not_refused hrefused hhost, rfl⟩
      exact nomatch hrun.symm.trans hok

theorem SameGates.isEnterpriseMode {parent' : ProcessEnv} (h : SameGates parent parent') :
    isEnterpriseMode parent' = isEnterpriseMode parent := by
  rw [KirkForge.isEnterpriseMode, KirkForge.isEnterpriseMode, h.enterprise]

theorem SameGates.unsafeHostSandbox {parent' : ProcessEnv} (h : SameGates parent parent') :
    unsafeHostSandbox parent' = unsafeHostSandbox parent := by
  rw [KirkForge.unsafeHostSandbox, KirkForge.unsafeHostSandbox, h.unsafeHost]

/-- A variable that is neither looked at nor set by anyone. -/
theorem exists_fresh (parent env : ProcessEnv) : ∃ name,
    "KIRKFORGE_ENTERPRISE_MODE" ≠ name ∧ "ALLOW_UNSAFE_HOST_SANDBOX" ≠ name ∧
      parent.get? name = none ∧ env.get? name = none := by
  obtain ⟨name, h⟩ := Infinite.exists_notMem_finset
    ("KIRKFORGE_ENTERPRISE_MODE" :: "ALLOW_UNSAFE_HOST_SANDBOX" ::
      (parent.keys ++ env.keys)).toFinset
  rw [List.mem_toFinset, List.mem_cons, List.mem_cons, List.mem_append] at h
  push Not at h
  obtain ⟨hmode, hhost, hparent, henv⟩ := h
  exact ⟨name, hmode.symm, hhost.symm, OrderedMap.get?_eq_none_iff.mpr hparent,
    OrderedMap.get?_eq_none_iff.mpr henv⟩

/-- In enterprise mode the parent's environment is kept from the process exactly when there is
none. -/
theorem enterprise_isolated_iff (host : RunnerHost) (parent : ProcessEnv)
    (config : SandboxRunConfig) (henterprise : isEnterpriseMode parent = true) :
    Isolated host parent config ↔ unsafeHostSandbox parent = false ∨ Refused config := by
  rcases @runSandboxed_enterprise parent config host henterprise with
    ⟨spawn, hspawn, hhost, hrefused, henv⟩ | ⟨hnone, hwhy⟩
  · refine iff_of_false (fun hisolated => ?_) ?_
    · -- a variable set in the parent alone arrives in the process
      obtain ⟨name, hmode, hgate, hparent, hconfig⟩ := exists_fresh parent config.env
      have hgates : SameGates parent (parent.set name "1") :=
        ⟨OrderedMap.get?_set_of_ne _ hmode.symm _, OrderedMap.get?_set_of_ne _ hgate.symm _⟩
      have hchild := hisolated _ hgates
      rcases @runSandboxed_enterprise (parent.set name "1") config host
        (hgates.isEnterpriseMode.trans henterprise) with
        ⟨spawn', hspawn', -, -, henv'⟩ | ⟨hnone', -⟩
      · rw [childEnv, childEnv, hspawn, hspawn'] at hchild
        have heq : spawn'.env = spawn.env := Option.some.inj hchild
        rw [henv, henv'] at heq
        have hget := congrArg (fun env => OrderedMap.get? env name) heq
        simp only [get?_spread, hconfig, Option.none_or, hparent, OrderedMap.get?_set_self] at hget
        cases hget
      · rw [childEnv, childEnv, hspawn, hnone'] at hchild
        cases hchild
    · rw [hhost]
      exact not_or.mpr ⟨by rintro ⟨⟩, hrefused⟩
  · refine iff_of_true (fun parent' hgates => ?_) hwhy
    rcases @runSandboxed_enterprise parent' config host
      (hgates.isEnterpriseMode.trans henterprise) with
      ⟨spawn', -, hhost', hrefused', -⟩ | ⟨hnone', -⟩
    · rw [hgates.unsafeHostSandbox] at hhost'
      rcases hwhy with h | h
      · rw [hhost'] at h
        cases h
      · exact (hrefused' h).elim
    · rw [childEnv, childEnv, hnone, hnone']

private def exampleHost : RunnerHost where
  execPath := "/usr/bin/node"
  existsSync _ := false

private def openParent (apiKey : String) : ProcessEnv where
  entries := [("KIRKFORGE_ENTERPRISE_MODE", "1"), ("ALLOW_UNSAFE_HOST_SANDBOX", "1"),
    ("OPENAI_API_KEY", apiKey)]
  nodup := by simp

private def gitStatus : SandboxRunConfig where
  command := "git"
  args := ["status"]
  constraints := { shellAllowed := some true, allowedCommands := some ["git"] }

/-- A process that was to inherit nothing is told the API key of its parent. -/
theorem enterprise_leaks_api_key :
    isEnterpriseMode (openParent "sk-1") = true ∧ gitStatus.inheritParentEnv = false ∧
    SameGates (openParent "sk-1") (openParent "sk-2") ∧
    ((childEnv exampleHost (openParent "sk-1") gitStatus).bind
      (OrderedMap.get? · "OPENAI_API_KEY") = some "sk-1") ∧
    ((childEnv exampleHost (openParent "sk-2") gitStatus).bind
      (OrderedMap.get? · "OPENAI_API_KEY") = some "sk-2") ∧
    ¬ Isolated exampleHost (openParent "sk-1") gitStatus := by
  have hgates : SameGates (openParent "sk-1") (openParent "sk-2") := ⟨rfl, rfl⟩
  have hfirst : (childEnv exampleHost (openParent "sk-1") gitStatus).bind
      (OrderedMap.get? · "OPENAI_API_KEY") = some "sk-1" := by decide
  have hsecond : (childEnv exampleHost (openParent "sk-2") gitStatus).bind
      (OrderedMap.get? · "OPENAI_API_KEY") = some "sk-2" := by decide
  refine ⟨by decide, rfl, hgates, hfirst, hsecond, fun hisolated => ?_⟩
  rw [hisolated _ hgates, hfirst] at hsecond
  exact absurd hsecond (by decide)

theorem enterprise_isolated_unsafe :
    Isolated exampleHost (openParent "sk-1") gitStatus ↔
      unsafeHostSandbox (openParent "sk-1") = false ∨ Refused gitStatus :=
  enterprise_isolated_iff exampleHost (openParent "sk-1") gitStatus (by decide)

end KirkForge
