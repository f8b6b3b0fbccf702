import KirkForge.Orchestrator.ExecuteDecomposition

/-!
# The results of a decomposition

`Executed` says what the loop of `executeDecomposition` has done for the nodes it is past: which of
them are completed and how, how many entries each has, and what was known at each delegation. A step
of the loop keeps it (`Executed.step`), so the loop never stops with an error
(`foldlM_executeNode`).
-/

namespace KirkForge

variable {env : ExecutionEnv} {taskId : String} {actor : Option Actor} {nodes done : List TaskNode}
  {node : TaskNode} {x : Execution}

/-- The delegate calls for a node would give it an ok result. -/
def Delivers (env : ExecutionEnv) (id : String) : Prop :=
  ∃ value, delegateTwice env id = .ok value ∧
    (resultVerdict value = "pass" ∨ resultVerdict value = "warn")

/-- A node that delivers no ok result, or rests on one that does not. -/
inductive Failed (env : ExecutionEnv) (nodes : List TaskNode) : String → Prop
  | own {n} (hn : n ∈ nodes) (h : ¬Delivers env n.id) : Failed env nodes n.id
  | dependency {n dep} (hn : n ∈ nodes) (hdep : dep ∈ n.dependsOn) (h : Failed env nodes dep) :
    Failed env nodes n.id

theorem failed_iff (hids : (nodes.map (·.id)).Nodup) (hn : node ∈ nodes) :
    Failed env nodes node.id ↔
      ¬Delivers env node.id ∨ ∃ dep ∈ node.dependsOn, Failed env nodes dep := by
  constructor
  · intro h
    generalize hid : node.id = id at h
    cases h with
    | own hn' h => exact .inl h
    | dependency hn' hdep h =>
      exact .inr ⟨_, List.inj_on_of_nodup_map hids hn' hn hid.symm ▸ hdep, h⟩
  · rintro (h | ⟨dep, hdep, h⟩)
    exacts [.own hn h, .dependency hn hdep h]

theorem subtaskResult_nodeId : (subtaskResult env node).nodeId = node.id := by
  rw [subtaskResult]
  split <;> rfl

theorem subtaskResult_ok : (subtaskResult env node).ok = true ↔ Delivers env node.id := by
  rw [subtaskResult, Delivers]
  split
  · next h => simp [h]
  · next value h => simp [h]

/-! ### One node -/

open Classical in
/-- The number of failed dependencies, counted as often as they are listed. -/
noncomputable def failedCount (env : ExecutionEnv) (nodes : List TaskNode) (deps : List String) :
    Nat :=
  deps.countP fun dep => Failed env nodes dep

/-- What the loop over the dependencies does when it finds `count` of them failed. -/
structure Skips (node : TaskNode) (count : Nat) (x x' : Execution) : Prop where
  calls : x'.calls = x.calls
  results : x'.results.map (·.nodeId) = x.results.map (·.nodeId) ++ List.replicate count node.id
  subset : x.results ⊆ x'.results
  other : ∀ id, node.id ≠ id → x'.completed.get? id = x.completed.get? id
  none : count = 0 → x' = x
  some : count ≠ 0 →
    ∃ sr, x'.completed.get? node.id = some sr ∧ sr.nodeId = node.id ∧ sr.ok = false

/-- The completed entry of a dependency tells whether it failed. -/
def Known (env : ExecutionEnv) (nodes : List TaskNode) (x : Execution) (id : String) : Prop :=
  ∃ sr, x.completed.get? id = some sr ∧ (sr.ok = true ↔ ¬Failed env nodes id)

theorem checkDependencies_skips (deps : List String) (hself : node.id ∉ deps)
    (hknown : ∀ dep ∈ deps, Known env nodes x dep) :
    ∃ x', checkDependencies node deps x = .ok x' ∧
      Skips node (failedCount env nodes deps) x x' := by
  induction deps generalizing x with
  | nil => exact ⟨x, rfl, rfl, (List.append_nil _).symm, fun _ => id, fun _ _ => rfl, fun _ => rfl,
      fun h => (h rfl).elim⟩
  | cons dep rest ih =>
    obtain ⟨hdep, hrest⟩ := not_or.mp (mt List.mem_cons.mpr hself)
    obtain ⟨sr, hsr, hok⟩ := hknown dep (.head _)
    rw [checkDependencies, hsr]
    dsimp only
    cases hfail : sr.ok with
    | true =>
      have hcount : failedCount env nodes (dep :: rest) = failedCount env nodes rest :=
        List.countP_cons_of_neg (by simpa using hok.mp hfail)
      rw [hcount]
      exact ih hrest fun d hd => hknown d (.tail _ hd)
    | false =>
      have hcount : failedCount env nodes (dep :: rest) = failedCount env nodes rest + 1 :=
        List.countP_cons_of_pos (by simpa using not_not.mp (mt hok.mpr (by simp [hfail])))
      have hget (id : String) (hid : node.id ≠ id) :
          (x.push (skipped node dep)).completed.get? id = x.completed.get? id :=
        OrderedMap.get?_set_of_ne _ hid _
      obtain ⟨x', hx', hskips⟩ := ih (x := x.push (skipped node dep)) hrest fun d hd => by
        obtain ⟨sr, hsr, hok⟩ := hknown d (.tail _ hd)
        exact ⟨sr, (hget d fun h => hrest (h ▸ hd)).trans hsr, hok⟩
      refine ⟨x', hx', hskips.calls, ?_, ?_, ?_, ?_, fun _ => ?_⟩
      · rw [hcount, hskips.results, List.replicate_succ]
        simp [Execution.push, skipped]
      · exact fun r hr => hskips.subset (List.mem_append_left _ hr)
      · exact fun id hid => (hskips.other id hid).trans (hget id hid)
      · rw [hcount]; nofun
      · by_cases h0 : failedCount env nodes rest = 0
        · rw [hskips.none h0]
          exact ⟨skipped node dep, OrderedMap.get?_set_self .., rfl, rfl⟩
        · exact hskips.some h0

/-- A node gets one entry, or one for each failed dependency. -/
noncomputable def entryCount (env : ExecutionEnv) (nodes : List TaskNode) (n : TaskNode) : Nat :=
  max 1 (failedCount env nodes n.dependsOn)

/-- The call is made when every dependency of its node is known to be ok. -/
def CallReady (nodes : List TaskNode) (c : SubtaskCall) : Prop :=
  ∃ n ∈ nodes, n.id = c.nodeId ∧
    ∀ dep ∈ n.dependsOn, ∃ sr ∈ c.known, sr.nodeId = dep ∧ sr.ok = true

/-- What has been completed is right about itself, and is among the results if it is ok. -/
structure Completed (env : ExecutionEnv) (nodes : List TaskNode) (x : Execution) (id : String)
    (sr : SubtaskExecutionResult) : Prop where
  nodeId : sr.nodeId = id
  ok : sr.ok = true ↔ ¬Failed env nodes id
  result : sr.ok = true → sr ∈ x.results

/-- The loop has executed the nodes of `done`. -/
structure Executed (env : ExecutionEnv) (nodes done : List TaskNode) (x : Execution) : Prop where
  completed : ∀ id ∈ done.map (·.id),
    ∃ sr, x.completed.get? id = some sr ∧ Completed env nodes x id sr
  pending : ∀ id, id ∉ done.map (·.id) → x.completed.get? id = none
  results : x.results.map (·.nodeId) =
    done.flatMap fun n => List.replicate (entryCount env nodes n) n.id
  calls : ∀ c ∈ x.calls, CallReady nodes c

theorem executed_empty : Executed env nodes [] .empty where
  completed _ hid := absurd hid List.not_mem_nil
  pending _ _ := rfl
  results := rfl
  calls _ hc := absurd hc List.not_mem_nil

theorem failedCount_eq_zero_iff {deps : List String} :
    failedCount env nodes deps = 0 ↔ ∀ dep ∈ deps, ¬Failed env nodes dep := by
  simp [failedCount, List.countP_eq_zero]

theorem delegateCalls_spec {known : List SubtaskExecutionResult} {c : SubtaskCall}
    (hc : c ∈ delegateCalls env taskId actor node known) :
    c.nodeId = node.id ∧ c.known = known := by
  rw [delegateCalls] at hc
  split at hc <;> simp only [List.mem_cons, List.not_mem_nil, or_false] at hc
  · exact hc ▸ ⟨rfl, rfl⟩
  all_goals rcases hc with rfl | rfl <;> exact ⟨rfl, rfl⟩

theorem Completed.mono {x' : Execution} (hsub : x.results ⊆ x'.results) {id : String}
    {sr : SubtaskExecutionResult} (h : Completed env nodes x id sr) :
    Completed env nodes x' id sr :=
  ⟨h.nodeId, h.ok, fun hok => hsub (h.result hok)⟩

theorem Executed.extend {x' : Execution} (hx : Executed env nodes done x)
    (hsub : x.results ⊆ x'.results)
    (hother : ∀ id, node.id ≠ id → x'.completed.get? id = x.completed.get? id)
    (hown : ∃ sr, x'.completed.get? node.id = some sr ∧ Completed env nodes x' node.id sr)
    (hresults : x'.results.map (·.nodeId) =
      x.results.map (·.nodeId) ++ List.replicate (entryCount env nodes node) node.id)
    (hcalls : ∀ c ∈ x'.calls, CallReady nodes c) : Executed env nodes (done ++ [node]) x' where
  completed id hid := by
    by_cases h : node.id = id
    · exact h ▸ hown
    · rw [List.map_append, List.mem_append] at hid
      obtain ⟨sr, hsr, hc⟩ :=
        hx.completed id (hid.resolve_right fun hid => h (List.mem_singleton.mp hid).symm)
      exact ⟨sr, (hother id h).trans hsr, hc.mono hsub⟩
  pending id hid := by
    rw [List.map_append, List.mem_append, not_or] at hid
    rw [hother id fun h => hid.2 (List.mem_singleton.mpr h.symm)]
    exact hx.pending id hid.1
  results := by
    rw [hresults, hx.results, List.flatMap_append, List.flatMap_singleton]
  calls := hcalls

variable (taskId actor) in
theorem Executed.step (hx : Executed env nodes done x) (hids : (nodes.map (·.id)).Nodup)
    (hn : node ∈ nodes) (hnew : node.id ∉ done.map (·.id))
    (hdeps : ∀ dep ∈ node.dependsOn, dep ∈ done.map (·.id)) :
    ∃ x', executeNode env taskId actor x node = .ok x' ∧
      Executed env nodes (done ++ [node]) x' := by
  obtain ⟨x', hx', hskips⟩ := checkDependencies_skips node.dependsOn
    (fun h => hnew (hdeps _ h)) fun dep hdep => by
      obtain ⟨sr, hsr, hc⟩ := hx.completed dep (hdeps dep hdep)
      exact ⟨sr, hsr, hc.ok⟩
  rw [executeNode, hx']
  dsimp only
  by_cases hcount : failedCount env nodes node.dependsOn = 0
  · have hok := failedCount_eq_zero_iff.mp hcount
    have hentry : entryCount env nodes node = 1 := by rw [entryCount, hcount]; rfl
    have hhas : x.completed.has node.id = false := by
      rw [OrderedMap.has, hx.pending _ hnew]; rfl
    rw [hskips.none hcount, hhas, if_neg Bool.false_ne_true]
    refine ⟨_, rfl, hx.extend (fun _ h => List.mem_append_left _ h) (fun id hid => ?_)
      ⟨subtaskResult env node, ?_, subtaskResult_nodeId, ?_, fun _ => ?_⟩ ?_ fun c hc => ?_⟩
    · exact OrderedMap.get?_set_of_ne _ (subtaskResult_nodeId ▸ hid) _
    · have hid : (subtaskResult env node).nodeId = node.id := subtaskResult_nodeId
      exact hid ▸ OrderedMap.get?_set_self ..
    · rw [subtaskResult_ok, failed_iff hids hn, not_or, not_not]
      refine ⟨fun h => ⟨h, ?_⟩, And.left⟩
      rintro ⟨dep, hdep, hf⟩
      exact hok dep hdep hf
    · exact List.mem_append_right _ (List.mem_singleton_self _)
    · rw [hentry]
      simp [Execution.push, subtaskResult_nodeId]
    · rcases List.mem_append.mp hc with hc | hc
      · exact hx.calls c hc
      · obtain ⟨hid, hknown⟩ := delegateCalls_spec hc
        refine ⟨node, hn, hid.symm, fun dep hdep => ?_⟩
        obtain ⟨sr, -, hsr⟩ := hx.completed dep (hdeps dep hdep)
        have hsrok := hsr.ok.mpr (hok dep hdep)
        exact ⟨sr, hknown ▸ hsr.result hsrok, hsr.nodeId, hsrok⟩
  · have hentry : entryCount env nodes node = failedCount env nodes node.dependsOn :=
      Nat.max_eq_right (Nat.one_le_iff_ne_zero.mpr hcount)
    obtain ⟨sr, hsr, hid, hfalse⟩ := hskips.some hcount
    have hfailed : Failed env nodes node.id := by
      obtain ⟨dep, hdep, hf⟩ : ∃ dep ∈ node.dependsOn, Failed env nodes dep := by
        by_contra h
        exact hcount (failedCount_eq_zero_iff.mpr fun dep hdep hf => h ⟨dep, hdep, hf⟩)
      exact .dependency hn hdep hf
    have hhas : x'.completed.has node.id = true := by rw [OrderedMap.has, hsr]; rfl
    rw [if_pos hhas]
    refine ⟨x', rfl, hx.extend hskips.subset hskips.other ⟨sr, hsr, hid, ?_, ?_⟩ ?_ ?_⟩
    · exact iff_of_false (by simp [hfalse]) (not_not.mpr hfailed)
    · exact fun h => absurd h (by simp [hfalse])
    · rw [hentry]; exact hskips.results
    · rw [hskips.calls]; exact hx.calls

variable (env taskId actor) in
theorem foldlM_executeNode {ordered : List TaskNode} (horder : DependencyOrder nodes ordered) :
    ∃ x, ordered.foldlM (executeNode env taskId actor) .empty = .ok x ∧
      Executed env nodes ordered x := by
  suffices h : ∀ (rest done : List TaskNode) (x : Execution), ordered = done ++ rest →
      Executed env nodes done x → ∃ x', rest.foldlM (executeNode env taskId actor) x = .ok x' ∧
        Executed env nodes ordered x' from
    h ordered [] .empty rfl executed_empty
  intro rest
  induction rest with
  | nil => rintro done x rfl hx; exact ⟨x, rfl, by rwa [List.append_nil]⟩
  | cons n rest ih =>
    intro done x heq hx
    have hnew : n.id ∉ done.map (·.id) := by
      have hnodup := horder.nodup
      rw [heq, List.map_append, List.map_cons] at hnodup
      exact fun h => (List.nodup_append.mp hnodup).2.2 _ h _ (.head _) rfl
    obtain ⟨x', hx', hstep⟩ := hx.step taskId actor
      ((horder.perm.map _).nodup_iff.mp horder.nodup) (horder.perm.subset (by rw [heq]; simp)) hnew
      (horder.before done n rest heq)
    rw [List.foldlM_cons, hx']
    exact ih (done ++ [n]) x' (by rw [heq, List.append_assoc]; rfl) hstep

/-! ### One result for each node -/

theorem countP_le_one_iff {α : Type*} {p : α → Prop} [DecidablePred p] {l : List α} :
    l.countP (fun a => p a) ≤ 1 ↔ l.Pairwise fun a b => ¬(p a ∧ p b) := by
  induction l with
  | nil => simp
  | cons a l ih =>
    by_cases ha : p a
    · rw [List.countP_cons_of_pos (by simpa using ha), List.pairwise_cons]
      constructor
      · intro h
        have h0 : l.countP (fun a => p a) = 0 := by omega
        refine ⟨fun b hb hab => ?_, ih.mp (by omega)⟩
        exact List.countP_eq_zero.mp h0 b hb (by simpa using hab.2)
      · rintro ⟨h, -⟩
        have h0 : l.countP (fun a => p a) = 0 :=
          List.countP_eq_zero.mpr fun b hb hpb => h b hb ⟨ha, by simpa using hpb⟩
        omega
    · rw [List.countP_cons_of_neg (by simpa using ha), List.pairwise_cons, ih]
      exact (and_iff_right fun b _ h => ha h.1).symm

theorem entryCount_eq_one_iff {n : TaskNode} :
    entryCount env nodes n = 1 ↔
      n.dependsOn.Pairwise fun dep dep' => ¬(Failed env nodes dep ∧ Failed env nodes dep') := by
  classical
  have hle : failedCount env nodes n.dependsOn ≤ 1 ↔ _ := countP_le_one_iff
  rw [← hle, entryCount]
  omega

/-- A sum of positive numbers is as small as it can be when they are all one. -/
theorem length_flatMap_replicate {α β : Type*} {l : List α} {k : α → Nat} {f : α → β}
    (hk : ∀ a ∈ l, 1 ≤ k a) :
    (l.flatMap fun a => List.replicate (k a) (f a)).length = l.length ↔ ∀ a ∈ l, k a = 1 := by
  have hle (l : List α) (hk : ∀ a ∈ l, 1 ≤ k a) :
      l.length ≤ (l.flatMap fun a => List.replicate (k a) (f a)).length := by
    induction l with
    | nil => exact Nat.zero_le _
    | cons a l ih =>
      have := hk a (.head _)
      have := ih fun b hb => hk b (.tail _ hb)
      simp only [List.flatMap_cons, List.length_append, List.length_replicate, List.length_cons]
      omega
  induction l with
  | nil => simp
  | cons a l ih =>
    have ha := hk a (.head _)
    have hl := hle l fun b hb => hk b (.tail _ hb)
    rw [List.forall_mem_cons]
    refine Iff.trans ?_ (and_congr_right fun _ => ih fun b hb => hk b (.tail _ hb))
    simp only [List.flatMap_cons, List.length_append, List.length_replicate, List.length_cons]
    omega

structure OneResultEach (tasks : List TaskNode) (r : DecompositionExecutionResult)
    (calls : List SubtaskCall) : Prop where
  each : (r.results.map (·.nodeId)).Perm (tasks.map (·.id))
  ready : ∀ c ∈ calls, CallReady tasks c
  counted : r.succeededCount + (r.results.filter fun sr => !sr.ok).length = r.totalSubtasks

/-- A result is faithful to its nodes when no node has more than one entry. -/
theorem Executed.entries_iff {ordered : List TaskNode} (horder : DependencyOrder nodes ordered)
    (hx : Executed env nodes ordered x) {r : DecompositionExecutionResult}
    (hresults : r.results = x.results) (htotal : r.totalSubtasks = ordered.length)
    (hsucceeded : r.succeededCount = (r.results.filter (·.ok)).length) :
    OneResultEach nodes r x.calls ↔ ∀ n ∈ nodes, entryCount env nodes n = 1 := by
  have hids : r.results.map (·.nodeId) =
      ordered.flatMap fun n => List.replicate (entryCount env nodes n) n.id :=
    hresults ▸ hx.results
  have hlength : r.results.length = ordered.length ↔ ∀ n ∈ nodes, entryCount env nodes n = 1 := by
    have hpos (n : TaskNode) : 1 ≤ entryCount env nodes n := Nat.le_max_left ..
    rw [← List.length_map (·.nodeId), hids, length_flatMap_replicate fun n _ => hpos n]
    exact forall_congr' fun n => imp_congr_left horder.perm.mem_iff
  constructor
  · intro h
    rw [← hlength, ← List.length_map (·.nodeId), h.each.length_eq, List.length_map,
      horder.perm.length_eq]
  · intro hone
    refine ⟨?_, hx.calls, ?_⟩
    · rw [hids, List.flatMap_congr fun n hn => by rw [hone n (horder.perm.subset hn)]]
      exact List.map_eq_flatMap ▸ horder.perm.map _
    · rw [hsucceeded, htotal, ← hlength.mpr hone]
      exact (List.length_eq_length_filter_add _).symm

theorem oneResultEach_iff (env : ExecutionEnv) (taskId : String) (actor : Option Actor)
    (stored : StoredDecomposition) (ordered : List TaskNode)
    (hstored : recallTasks env taskId = .ok stored)
    (hsorted : topologicalSort stored.tasks = .ok ordered) :
    ∃ r x, executeDecomposition env taskId actor = .ok (r, x) ∧
      (OneResultEach stored.tasks r x.calls ↔
        ∀ n ∈ stored.tasks, n.dependsOn.Pairwise fun dep dep' =>
          ¬(Failed env stored.tasks dep ∧ Failed env stored.tasks dep')) := by
  have horder := topologicalSort_ok hsorted
  obtain ⟨x, hx, hexecuted⟩ := foldlM_executeNode env taskId actor horder
  rw [executeDecomposition, hstored]
  simp only [executeTasks, hsorted, hx]
  refine ⟨_, x, rfl, (hexecuted.entries_iff horder rfl rfl rfl).trans ?_⟩
  exact forall₂_congr fun _ _ => entryCount_eq_one_iff

/-- A node that is a file to write after those it depends on. -/
def fileNode (id : String) (dependsOn : List String) : TaskNode where
  id
  description := id
  language := "text"
  dependsOn
  estimatedComplexity := .simple
  outputFiles := [id]
  verificationHint := ""

/-- Only the given nodes are stored, and every delegate call throws. -/
def unreachableEnv (tasks : List TaskNode) : ExecutionEnv where
  shuttingDown := false
  recallDecomposition := some fun _ => .ok (some { description := "", tasks })
  policyEngine := none
  defaultModel := .error "No provider found"
  delegate _ _ := .threw "connect ECONNREFUSED"
  subtaskDurationMs _ := 0
  totalDurationMs := 0

theorem Settled.value?_eq_some {ε α : Type} {r : Settled ε α} {a : α} :
    r.value? = some a ↔ r = .ok a := by
  cases r <;> simp [Settled.value?]

/-- Two dependencies of `c` fail, and `c` is entered twice. -/
theorem twoFailedDependencies_duplicated :
    let tasks := [fileNode "a" [], fileNode "b" [], fileNode "c" ["a", "b"]]
    ∃ r x, executeDecomposition (unreachableEnv tasks) "task" none = .ok (r, x) ∧
      r.results.map (·.nodeId) = ["a", "b", "c", "c"] ∧ r.totalSubtasks = 3 ∧
      ¬OneResultEach tasks r x.calls := by
  intro tasks
  have hrun : (executeDecomposition (unreachableEnv tasks) "task" none).value?.map
      (fun c => (c.1.results.map (·.nodeId), c.1.totalSubtasks)) =
        some (["a", "b", "c", "c"], 3) := by decide
  obtain ⟨⟨r, x⟩, hvalue, hsummary⟩ := Option.map_eq_some_iff.mp hrun
  obtain ⟨hids, htotal⟩ := Prod.mk.inj hsummary
  refine ⟨r, x, Settled.value?_eq_some.mp hvalue, hids, htotal, fun h => ?_⟩
  have hlength := h.each.length_eq
  rw [hids] at hlength
  exact absurd hlength (by decide)

/-- With one failed dependency each node has its one entry. -/
theorem oneResultEach_iff_of_chain :
    let tasks := [fileNode "a" [], fileNode "b" ["a"]]
    ∃ r x, executeDecomposition (unreachableEnv tasks) "task" none = .ok (r, x) ∧
      OneResultEach tasks r x.calls := by
  intro tasks
  obtain ⟨r, x, hrun, hiff⟩ := oneResultEach_iff (unreachableEnv tasks) "task" none
    { description := "", tasks } tasks rfl (by decide)
  refine ⟨r, x, hrun, hiff.mpr fun n hn => ?_⟩
  simp only [tasks, List.mem_cons, List.not_mem_nil, or_false] at hn
  rcases hn with rfl | rfl
  · exact .nil
  · exact List.pairwise_singleton _ _

end KirkForge
