import KirkForge.CoreTenancy.TenantRegistry

/-!
# Tenants kept apart

The directory of a tenant is the storage root joined with its id, registered or not, in every run of
registries on one storage root. The name of a resource is checked, the id is not: the directories
stay inside the root and apart from each other for just those ids that lead down from the root, none
of them through another (`tenants_isolated_iff`).
-/

namespace KirkForge

open KirkForge.Path AbsPath

namespace TenancyState

variable {env : RegistryEnv} {s : TenancyState}

/-- The directory of a tenant as a registry has it. -/
def tenantDir (env : RegistryEnv) (tenants : TenantRegistry) (tenantId : String) : AbsPath :=
  env.cwd.resolve (tenants.base env tenantId)

/-- What the registries promise of the tenants with some ids. -/
structure Isolated (env : RegistryEnv) (ids : Set String) (s : TenancyState) : Prop where
  inside : ∀ tenants ∈ s.registries, ∀ t ∈ ids, ∀ name path,
    tenants.resolvePath env t name = .ok path →
      (env.cwd.resolve path).Inside (env.cwd.resolve env.storageRoot)
  distinct : ∀ tenants ∈ s.registries, ∀ tenants' ∈ s.registries, ∀ t ∈ ids, ∀ u ∈ ids, t ≠ u →
    ∀ name name' path path', tenants.resolvePath env t name = .ok path →
      tenants'.resolvePath env u name' = .ok path' → env.cwd.resolve path ≠ env.cwd.resolve path'
  apart : ∀ tenants ∈ s.registries, ∀ tenants' ∈ s.registries, ∀ t ∈ ids, ∀ u ∈ ids, t ≠ u →
    ¬(tenantDir env tenants t).Contains (tenantDir env tenants' u)

/-- The id leads down from every storage root. -/
def LeadsDown (tenantId : String) : Prop :=
  tenantId.toList.head? ≠ some '/' ∧ ['.', '.'] ∉ relativeNormal tenantId

/-! ### Handles -/

/-- The handle has the directory that an unregistered tenant with its id has. -/
def HasBase (env : RegistryEnv) (handle : TenantHandle) : Prop :=
  handle.storageDir = join env.storageRoot handle.tenantId

/-- Every handle is under its id and has the directory of the id. -/
def Proper (env : RegistryEnv) (tenants : TenantRegistry) : Prop :=
  ∀ t handle, tenants.get? t = some handle → handle.tenantId = t ∧ HasBase env handle

def ProperFile (env : RegistryEnv) : IndexFile → Prop
  | .entries list => ∀ handle ∈ list, HasBase env handle
  | _ => True

theorem Proper.base {tenants : TenantRegistry} (h : Proper env tenants) (t : String) :
    tenants.base env t = join env.storageRoot t := by
  unfold TenantRegistry.base
  split
  · next handle hget =>
    obtain ⟨rfl, hbase⟩ := h t handle hget
    exact hbase
  · rfl

theorem proper_empty : Proper env ∅ := fun _ _ hget => nomatch hget

theorem Proper.set {tenants : TenantRegistry} (h : Proper env tenants) {tenantId : String}
    {handle : TenantHandle} (hid : handle.tenantId = tenantId) (hbase : HasBase env handle) :
    Proper env (tenants.set tenantId handle) := by
  intro t other hget
  rw [OrderedMap.get?_set] at hget
  split at hget
  · next heq =>
    obtain rfl := Option.some.inj hget
    exact ⟨hid.trans heq, hbase⟩
  · exact h t other hget

theorem proper_loadIndex {file : IndexFile} (h : ProperFile env file) :
    Proper env (TenantRegistry.loadIndex file) := by
  cases file with
  | missing => exact proper_empty
  | corrupt => exact proper_empty
  | entries list =>
    have hfold (tenants : TenantRegistry) (htenants : Proper env tenants) : Proper env
        (list.foldl (fun tenants entry => tenants.set entry.tenantId entry) tenants) := by
      induction list generalizing tenants with
      | nil => exact htenants
      | cons entry list ih =>
        obtain ⟨hentry, hlist⟩ := List.forall_mem_cons.mp h
        exact ih hlist _ (htenants.set rfl hentry)
    exact hfold ∅ proper_empty

theorem Proper.index {tenants : TenantRegistry} (h : Proper env tenants) :
    ProperFile env tenants.index := by
  intro handle hmem
  obtain ⟨⟨t, handle'⟩, he, rfl⟩ := List.mem_map.mp hmem
  exact (h t handle' (OrderedMap.mem_entries_iff.mp he)).2

theorem Proper.register {tenants : TenantRegistry} (h : Proper env tenants)
    (workspacePath now : String) :
    Proper env (tenants.register env workspacePath now).2.1 := by
  unfold TenantRegistry.register
  dsimp only
  split
  · exact h
  · exact h.set rfl rfl

theorem Proper.evict {tenants : TenantRegistry} (h : Proper env tenants) (tenantId : String) :
    Proper env (tenants.evictFromIndex tenantId).1 := by
  intro t handle hget
  rw [TenantRegistry.evictFromIndex, OrderedMap.get?_delete] at hget
  split at hget
  · cases hget
  · exact h t handle hget

/-- The index and every registry have proper handles only. -/
structure Inv (env : RegistryEnv) (s : TenancyState) : Prop where
  file : ProperFile env s.file
  registries : ∀ tenants ∈ s.registries, Proper env tenants

theorem Inv.change (h : Inv env s) (registry : Nat) {tenants : TenantRegistry}
    (htenants : Proper env tenants) (saves : Bool) (save : SaveOutcome) :
    Inv env (s.change registry tenants saves save) := by
  have hregistries : ∀ t ∈ s.registries.set registry tenants, Proper env t := by
    intro t ht
    rcases List.mem_or_eq_of_mem_set ht with ht | rfl
    · exact h.registries t ht
    · exact htenants
  cases save with
  | written =>
    refine ⟨?_, hregistries⟩
    cases saves with
    | true => exact htenants.index
    | false => exact h.file
  | failed => exact ⟨h.file, hregistries⟩
  | torn =>
    refine ⟨?_, hregistries⟩
    cases saves with
    | true => trivial
    | false => exact h.file

theorem Inv.step (h : Inv env s) (i : TenancyInput) : Inv env (step env s i) := by
  cases i with
  | create =>
    refine ⟨h.file, fun tenants htenants => ?_⟩
    rcases List.mem_append.mp htenants with htenants | htenants
    · exact h.registries tenants htenants
    · rw [List.mem_singleton.mp htenants]
      exact proper_loadIndex h.file
  | register registry workspacePath now save =>
    cases hget : s.registries[registry]? with
    | none => simpa only [TenancyState.step, hget] using h
    | some tenants =>
      have hproper := h.registries tenants (List.mem_of_getElem? hget)
      simpa only [TenancyState.step, hget] using
        h.change registry (hproper.register workspacePath now) _ save
  | evictFromIndex registry tenantId save =>
    cases hget : s.registries[registry]? with
    | none => simpa only [TenancyState.step, hget] using h
    | some tenants =>
      have hproper := h.registries tenants (List.mem_of_getElem? hget)
      simpa only [TenancyState.step, hget] using
        h.change registry (hproper.evict tenantId) _ save

/-! ### Paths of resources -/

theorem isSegment_of_safe {name : String} (h : isSafeResourceName name = true) :
    IsSegment name.toList := by
  have hempty : name ≠ "" := by
    rintro rfl
    exact nomatch h
  simp only [isSafeResourceName, hempty, if_false] at h
  split at h
  · exact nomatch h
  · split at h
    · exact nomatch h
    · next hslash =>
      split at h
      · exact nomatch h
      · split at h
        · exact nomatch h
        · refine ⟨by simpa using hempty, ?_, ?_, ?_⟩
          · intro hdot
            simp [Text.startsWith, hdot, List.isPrefixOf] at h
          · intro hdots
            simp [Text.startsWith, hdots, List.isPrefixOf] at h
          · intro hmem
            obtain ⟨before, after, hname⟩ := List.append_of_mem hmem
            have hincludes : Text.includes name "/" = true :=
              decide_eq_true ⟨before, after, by simp [hname]⟩
            simp [hincludes] at hslash

/-- The path of a resource lies in the directory of its tenant. -/
theorem resolve_resolvePath {tenants : TenantRegistry} (h : Proper env tenants) {t name path : String}
    (hpath : tenants.resolvePath env t name = .ok path) : IsSegment name.toList ∧
      (env.cwd.resolve path).segments = (tenantDir env tenants t).segments ++ [name.toList] := by
  unfold TenantRegistry.resolvePath at hpath
  split at hpath
  · exact nomatch hpath
  · next hsafe =>
    obtain rfl := Except.ok.inj hpath
    have hsegment := isSegment_of_safe (by simpa using hsafe)
    have hbase : tenants.base env t ≠ "" := by
      rw [h.base]
      exact join_ne_empty _ _
    have hfollow := follow_of_isSegment hsegment (tenantDir env tenants t)
    rw [String.ofList_toList] at hfollow
    exact ⟨hsegment, by rw [segments_resolve_join _ (.inl hbase), ← hfollow, tenantDir]⟩

theorem segments_tenantDir {tenants : TenantRegistry} (h : Proper env tenants) {t : String}
    (ht : LeadsDown t) : (tenantDir env tenants t).segments =
      (env.cwd.resolve env.storageRoot).segments ++ relativeNormal t := by
  rw [tenantDir, h.base, segments_resolve_join _ (.inr ht.1), follow_eq_append ht.2]

theorem Inv.isolated (h : Inv env s) {ids : Set String} (hids : ∀ t ∈ ids, LeadsDown t ∧
    ∀ u ∈ ids, t ≠ u → ¬relativeNormal t <+: relativeNormal u) : Isolated env ids s where
  inside tenants htenants t ht name path hpath := by
    obtain ⟨-, hsegments⟩ := resolve_resolvePath (h.registries tenants htenants) hpath
    rw [segments_tenantDir (h.registries tenants htenants) (hids t ht).1, List.append_assoc]
      at hsegments
    cases hnormal : relativeNormal t with
    | nil => exact ⟨name.toList, [], by rw [hsegments, hnormal]; rfl⟩
    | cons s rest => exact ⟨s, rest ++ [name.toList], by rw [hsegments, hnormal]; rfl⟩
  distinct tenants htenants tenants' htenants' t ht u hu hne name name' path path' hpath hpath' := by
    obtain ⟨-, hsegments⟩ := resolve_resolvePath (h.registries tenants htenants) hpath
    obtain ⟨-, hsegments'⟩ := resolve_resolvePath (h.registries tenants' htenants') hpath'
    intro heq
    rw [heq, hsegments', segments_tenantDir (h.registries tenants htenants) (hids t ht).1,
      segments_tenantDir (h.registries tenants' htenants') (hids u hu).1] at hsegments
    have hdirs := (List.append_inj' hsegments rfl).1
    exact (hids u hu).2 t ht (Ne.symm hne) (List.append_cancel_left hdirs ▸ List.prefix_rfl)
  apart tenants htenants tenants' htenants' t ht u hu hne hcontains := by
    rw [AbsPath.Contains, segments_tenantDir (h.registries tenants htenants) (hids t ht).1,
      segments_tenantDir (h.registries tenants' htenants') (hids u hu).1,
      List.prefix_append_right_inj] at hcontains
    exact (hids t ht).2 u hu hne hcontains

/-! ### Ids that do not lead down -/

/-- A registry in the directory `/<name>`, with that for its storage root. -/
def topEnv (name : Char) (h : IsSegment [name]) : RegistryEnv where
  sha256Hex := fun _ => ""
  cwd := ⟨[[name]], fun s hs => by rwa [List.mem_singleton.mp hs]⟩
  storageRoot := ""

/-- An id that does not lead down leads to the same place from all of these. -/
theorem exists_tenantDir_eq {t : String} (ht : ¬LeadsDown t) : ∃ segments,
    ∀ name h, (tenantDir (topEnv name h) ∅ t).segments = segments := by
  have hdir (name : Char) (h : IsSegment [name]) :
      tenantDir (topEnv name h) ∅ t = (topEnv name h).cwd.resolve t := by
    rw [tenantDir, proper_empty.base, topEnv, join, if_pos rfl, resolve_normalize]
  by_cases habs : t.toList.head? = some '/'
  · exact ⟨normalSegments t.toList false, fun name h => by
      rw [hdir, segments_resolve_absolute habs]⟩
  · have hdots : ['.', '.'] ∈ relativeNormal t := by
      by_contra hdots
      exact ht ⟨habs, hdots⟩
    obtain ⟨plain, hplain⟩ := follow_single hdots
    exact ⟨plain, fun name h => by rw [hdir, segments_resolve_relative habs, hplain _ rfl]⟩

/-- From one of two directories it leads outside. -/
theorem exists_not_inside {t : String} (ht : ¬LeadsDown t) : ∃ env path,
    (∅ : TenantRegistry).resolvePath env t "x" = .ok path ∧
      ¬(env.cwd.resolve path).Inside (env.cwd.resolve env.storageRoot) := by
  obtain ⟨segments, hsegments⟩ := exists_tenantDir_eq ht
  have hlead (name : Char) (h : IsSegment [name])
      (hname : (segments ++ [['x']]).head? ≠ some [name]) : ∃ env path,
      (∅ : TenantRegistry).resolvePath env t "x" = .ok path ∧
        ¬(env.cwd.resolve path).Inside (env.cwd.resolve env.storageRoot) := by
    refine ⟨topEnv name h, _, if_neg (by decide), ?_⟩
    have hok : (∅ : TenantRegistry).resolvePath (topEnv name h) t "x" = .ok _ :=
      if_neg (by decide)
    have hpath := (resolve_resolvePath proper_empty hok).2
    rintro ⟨s, rest, hinside⟩
    have hroot : ((topEnv name h).cwd.resolve (topEnv name h).storageRoot).segments = [[name]] := by
      rw [segments_resolve_relative (by simp [topEnv])]
      simp [follow, topEnv, addSegment]
    rw [hpath, hsegments, hroot] at hinside
    have hhead : "x".toList = ['x'] := rfl
    rw [hhead] at hinside
    exact hname (by rw [hinside]; rfl)
  by_cases ha : (segments ++ [['x']]).head? = some ['a']
  · refine hlead 'b' (by decide) ?_
    rw [ha]
    decide
  · exact hlead 'a' (by decide) ha

/-- Whatever registries do on whatever storage root, the tenants of some ids are kept apart, if and
only if the ids lead down and none of them leads through another. -/
theorem tenants_isolated_iff (ids : Set String) :
    (∀ env is, Run.AllStates (TenancyState.step env) (Isolated env ids) {} is) ↔
      ∀ t ∈ ids, LeadsDown t ∧ ∀ u ∈ ids, t ≠ u → ¬relativeNormal t <+: relativeNormal u := by
  constructor
  · intro h
    have hcreated (env : RegistryEnv) : Isolated env ids { registries := [∅] } :=
      (h env [.create]).2
    have hdown : ∀ t ∈ ids, LeadsDown t := by
      intro t ht
      by_contra hnot
      obtain ⟨env, path, hpath, houtside⟩ := exists_not_inside hnot
      exact houtside ((hcreated env).inside ∅ (List.mem_singleton.mpr rfl) t ht "x" path hpath)
    intro t ht
    refine ⟨hdown t ht, fun u hu hne hprefix => ?_⟩
    have hapart := (hcreated (topEnv 'a' (by decide))).apart ∅ (List.mem_singleton.mpr rfl) ∅
      (List.mem_singleton.mpr rfl) t ht u hu hne
    refine hapart ?_
    rw [AbsPath.Contains, segments_tenantDir proper_empty (hdown t ht),
      segments_tenantDir proper_empty (hdown u hu), List.prefix_append_right_inj]
    exact hprefix
  · intro hids env is
    have hinit : Inv env {} := ⟨trivial, fun _ hmem => absurd hmem List.not_mem_nil⟩
    refine (Run.allStates_of_forall (fun s i hs => hs.step i) hinit).mono ?_
    exact fun s hs => hs.isolated hids

/-- A registry with the storage root `/data/tenants`. -/
def dataEnv : RegistryEnv where
  sha256Hex := fun _ => ""
  cwd := AbsPath.root
  storageRoot := "/data/tenants"

/-- The id `../x` leads out of the storage root, to `/data/x/memory.db`. -/
theorem tenants_not_isolated : ¬∀ (ids : Set String) env is,
    Run.AllStates (TenancyState.step env) (Isolated env ids) {} is := by
  intro h
  have hcreated : Isolated dataEnv {"../x"} { registries := [∅] } :=
    (h {"../x"} dataEnv [.create]).2
  have hok : (∅ : TenantRegistry).resolvePath dataEnv "../x" "memory.db" =
      .ok "/data/x/memory.db" := by decide
  obtain ⟨s, rest, hinside⟩ :=
    hcreated.inside ∅ (List.mem_singleton.mpr rfl) "../x" rfl "memory.db" _ hok
  have hroot : (dataEnv.cwd.resolve dataEnv.storageRoot).segments =
      ["data".toList, "tenants".toList] := by decide
  have hpath : (dataEnv.cwd.resolve "/data/x/memory.db").segments =
      ["data".toList, "x".toList, "memory.db".toList] := by decide
  rw [hroot, hpath] at hinside
  have hsecond : some "x".toList = some "tenants".toList := congrArg (·[1]?) hinside
  exact absurd hsecond (by decide)

end TenancyState

end KirkForge
