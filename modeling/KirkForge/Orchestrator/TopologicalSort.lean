import KirkForge.Theory.Kahn

/-!
# Task nodes in dependency order

The nodes of a decomposition (`core-types/src/types.ts`) and `topologicalSort` of
`orchestrator-decompose.ts`. What it accepts are nodes with distinct ids, and it returns them all,
each after its dependencies (`topologicalSort_ok`).
-/

namespace KirkForge

inductive EstimatedComplexity
  | trivial | simple | moderate | complex
  deriving DecidableEq, Repr

structure TaskNode where
  id : String
  description : String
  language : String
  dependsOn : List String
  estimatedComplexity : EstimatedComplexity
  outputFiles : List String
  verificationHint : String
  deriving DecidableEq, Repr

/-- The edges that the nodes' dependencies add, in the order in which they are added. -/
def dependencyEdges (nodes : List TaskNode) : List (String × String) :=
  nodes.flatMap fun n => n.dependsOn.map fun dep => (dep, n.id)

def byId (nodes : List TaskNode) : OrderedMap String TaskNode :=
  nodes.foldl (fun m n => m.set n.id n) ∅

def topologicalSort (nodes : List TaskNode) : Except String (List TaskNode) :=
  let sorted := (Kahn.order (nodes.map (·.id)) (dependencyEdges nodes)).filterMap (byId nodes).get?
  if sorted.length ≠ nodes.length then .error "Cycle detected in task dependencies"
  else .ok sorted

/-! ### What is accepted -/

variable {nodes ordered : List TaskNode}

/-- The nodes in an order in which each comes after its dependencies. -/
structure DependencyOrder (nodes ordered : List TaskNode) : Prop where
  nodup : (ordered.map (·.id)).Nodup
  perm : ordered.Perm nodes
  before : ∀ done n rest, ordered = done ++ n :: rest → ∀ dep ∈ n.dependsOn, dep ∈ done.map (·.id)

theorem mem_dependencyEdges {dep id : String} :
    (dep, id) ∈ dependencyEdges nodes ↔ ∃ n ∈ nodes, dep ∈ n.dependsOn ∧ n.id = id := by
  simp [dependencyEdges]

theorem dependencyEdges_target {e : String × String} (he : e ∈ dependencyEdges nodes) :
    e.2 ∈ nodes.map (·.id) := by
  obtain ⟨n, hn, -, hid⟩ := mem_dependencyEdges.mp he
  exact hid ▸ List.mem_map_of_mem hn

/-- What a lookup by id may find. -/
def Finds (nodes : List TaskNode) (id : String) : Option TaskNode → Prop
  | some n => n ∈ nodes ∧ n.id = id
  | none => id ∉ nodes.map (·.id)

theorem byId_get? (nodes : List TaskNode) (id : String) :
    Finds nodes id ((byId nodes).get? id) := by
  suffices h : ∀ (nodes' : List TaskNode) (m : OrderedMap String TaskNode),
      Finds nodes' id (m.get? id) →
        Finds (nodes' ++ nodes) id ((nodes.foldl (fun m n => m.set n.id n) m).get? id) from
    h [] ∅ List.not_mem_nil
  induction nodes with
  | nil => intro nodes' m hm; rwa [List.append_nil]
  | cons n nodes ih =>
    intro nodes' m hm
    rw [List.append_cons]
    refine ih _ _ ?_
    rw [OrderedMap.get?_set]
    by_cases hid : n.id = id
    · rw [if_pos hid]
      exact ⟨List.mem_append_right _ (.head _), hid⟩
    · rw [if_neg hid]
      cases hget : m.get? id with
      | some n' => rw [hget] at hm; exact ⟨List.mem_append_left _ hm.1, hm.2⟩
      | none =>
        rw [hget] at hm
        rw [Finds, List.map_append, List.mem_append]
        exact not_or.mpr ⟨hm, by simpa using Ne.symm hid⟩

theorem byId_get?_of_mem (hids : (nodes.map (·.id)).Nodup) {n : TaskNode} (hn : n ∈ nodes) :
    (byId nodes).get? n.id = some n := by
  have hfinds := byId_get? nodes n.id
  cases hget : (byId nodes).get? n.id with
  | none => rw [hget] at hfinds; exact (hfinds (List.mem_map_of_mem hn)).elim
  | some n' =>
    rw [hget] at hfinds
    rw [List.inj_on_of_nodup_map hids hfinds.1 hn hfinds.2]

theorem topologicalSort_ok (h : topologicalSort nodes = .ok ordered) :
    DependencyOrder nodes ordered := by
  have hedges : ∀ e ∈ dependencyEdges nodes, e.2 ∈ nodes.map (·.id) :=
    fun _ => dependencyEdges_target
  rw [topologicalSort] at h
  generalize hids : Kahn.order (nodes.map (·.id)) (dependencyEdges nodes) = ids at h
  have hnodup : ids.Nodup := hids ▸ Kahn.nodup_order hedges
  have hsub : ids ⊆ nodes.map (·.id) := hids ▸ Kahn.order_subset hedges
  have hclosed : Kahn.Closed (dependencyEdges nodes) ids := hids ▸ Kahn.closed_order hedges
  split at h
  · cases h
  next hlen =>
  obtain rfl : ids.filterMap (byId nodes).get? = ordered := Except.ok.inj h
  -- as many ids as nodes were sorted, so no two nodes share one
  have hperm : ids.Perm (nodes.map (·.id)) := by
    refine (hnodup.subperm hsub).perm_of_length_le ?_
    rw [List.length_map, ← not_not.mp hlen]
    exact List.length_filterMap_le ..
  have hget (n : TaskNode) (hn : n ∈ nodes) : (byId nodes).get? n.id = some n :=
    byId_get?_of_mem (hperm.nodup_iff.mp hnodup) hn
  have hmap : (ids.filterMap (byId nodes).get?).map (·.id) = ids := by
    rw [List.map_filterMap]
    refine (List.filterMap_congr fun id hid => ?_).trans List.filterMap_some
    obtain ⟨n, hn, rfl⟩ := List.mem_map.mp (hsub hid)
    rw [hget n hn, Option.map_some]
  refine ⟨hmap.symm ▸ hnodup, ?_, fun done n rest heq dep hdep => ?_⟩
  · have hself : (nodes.map (·.id)).filterMap (byId nodes).get? = nodes := by
      rw [List.filterMap_map]
      exact (List.filterMap_congr fun n hn => hget n hn).trans List.filterMap_some
    exact (hperm.filterMap _).trans (.of_eq hself)
  · have hn : n ∈ nodes := by
      have hmem : n ∈ ids.filterMap (byId nodes).get? := by rw [heq]; simp
      obtain ⟨id, hid, hsome⟩ := List.mem_filterMap.mp hmem
      have hfinds := byId_get? nodes id
      rw [hsome] at hfinds
      exact hfinds.1
    refine hclosed (done.map (·.id)) n.id (rest.map (·.id)) ?_ dep
      (mem_dependencyEdges.mpr ⟨n, hn, hdep, rfl⟩)
    rw [← hmap, heq, List.map_append, List.map_cons]

end KirkForge

/-!
## Cycles among subtasks

`topologicalSort` (`orchestrator-decompose.ts`) reports a cycle exactly when there is one, where the
nodes have distinct ids and depend on nodes of the list only. A node that depends on itself is a
cycle; a dependency listed twice is two edges and changes nothing.
-/

namespace KirkForge

variable {nodes ordered : List TaskNode}

/-- The node `id` lists `dep` among its dependencies. -/
def NeededBy (nodes : List TaskNode) (dep id : String) : Prop :=
  ∃ n ∈ nodes, dep ∈ n.dependsOn ∧ n.id = id

theorem dependencyEdges_eq_neededBy :
    (fun dep id => (dep, id) ∈ dependencyEdges nodes) = NeededBy nodes := by
  funext dep id
  exact propext mem_dependencyEdges

/-- A dependency order lists the ids in an order that is closed for Kahn's graph. -/
theorem DependencyOrder.closed (h : DependencyOrder nodes ordered) :
    Kahn.Closed (dependencyEdges nodes) (ordered.map (·.id)) := by
  intro doneIds id restIds heq dep hdep
  obtain ⟨done, tail, rfl, rfl, htail⟩ := List.map_eq_append_iff.mp heq
  obtain ⟨n, rest, rfl, rfl, -⟩ := List.map_eq_cons_iff.mp htail
  obtain ⟨n', hn', hdep', hid⟩ := mem_dependencyEdges.mp hdep
  have hmem : n ∈ done ++ n :: rest := List.mem_append_right _ (.head _)
  obtain rfl : n' = n := List.inj_on_of_nodup_map h.nodup (h.perm.mem_iff.mpr hn') hmem hid
  exact h.before done n' rest rfl dep hdep'

theorem DependencyOrder.acyclic (h : DependencyOrder nodes ordered) :
    Kahn.Acyclic (dependencyEdges nodes) := by
  refine h.closed.acyclic h.nodup fun e he => ?_
  exact (h.perm.map (·.id)).mem_iff.mpr (dependencyEdges_target he)

/-- Where Kahn's search sorts every id, the nodes are accepted. -/
theorem topologicalSort_of_mem_order (hids : (nodes.map (·.id)).Nodup)
    (h : ∀ id ∈ nodes.map (·.id), id ∈ Kahn.order (nodes.map (·.id)) (dependencyEdges nodes)) :
    ∃ ordered, topologicalSort nodes = .ok ordered := by
  have hedges : ∀ e ∈ dependencyEdges nodes, e.2 ∈ nodes.map (·.id) :=
    fun _ => dependencyEdges_target
  rw [topologicalSort]
  generalize hsorted : Kahn.order (nodes.map (·.id)) (dependencyEdges nodes) = ids at h ⊢
  have hnodup : ids.Nodup := hsorted ▸ Kahn.nodup_order hedges
  have hsub : ids ⊆ nodes.map (·.id) := hsorted ▸ Kahn.order_subset hedges
  have hperm : ids.Perm (nodes.map (·.id)) :=
    (List.perm_ext_iff_of_nodup hnodup hids).mpr fun id => ⟨fun hid => hsub hid, h id⟩
  have hlen : (ids.filterMap (byId nodes).get?).length = nodes.length := by
    rw [(hperm.filterMap _).length_eq, List.filterMap_map]
    have hget : nodes.filterMap ((byId nodes).get? ∘ (·.id)) = nodes :=
      (List.filterMap_congr fun n hn => byId_get?_of_mem hids hn).trans List.filterMap_some
    rw [hget]
  exact ⟨_, if_neg (not_not.mpr hlen)⟩

/-- The sort succeeds exactly when no node depends on itself, directly or through others, and it
then returns all the nodes, each after its dependencies. -/
theorem topologicalSort_ok_iff_acyclic (hids : (nodes.map (·.id)).Nodup)
    (hdeps : ∀ n ∈ nodes, ∀ dep ∈ n.dependsOn, dep ∈ nodes.map (·.id)) :
    ((∃ ordered, topologicalSort nodes = .ok ordered) ↔
      ¬ ∃ id, Relation.TransGen (NeededBy nodes) id id) ∧
    ∀ ordered, topologicalSort nodes = .ok ordered → DependencyOrder nodes ordered := by
  refine ⟨⟨?_, ?_⟩, fun ordered h => topologicalSort_ok h⟩
  · rintro ⟨ordered, h⟩ ⟨id, hcycle⟩
    rw [← dependencyEdges_eq_neededBy] at hcycle
    exact (topologicalSort_ok h).acyclic id hcycle
  · intro hcycle
    have hacyclic : Kahn.Acyclic (dependencyEdges nodes) := by
      intro id h
      rw [dependencyEdges_eq_neededBy] at h
      exact hcycle ⟨id, h⟩
    have hsources : ∀ e ∈ dependencyEdges nodes, e.1 ∈ nodes.map (·.id) := by
      rintro ⟨dep, id⟩ he
      obtain ⟨n, hn, hdep, -⟩ := mem_dependencyEdges.mp he
      exact hdeps n hn dep hdep
    exact topologicalSort_of_mem_order hids
      (Kahn.mem_order hsources (fun _ => dependencyEdges_target) hacyclic)

private def parseNode : TaskNode where
  id := "parse"
  description := "Parse the file"
  language := "typescript"
  dependsOn := []
  estimatedComplexity := .simple
  outputFiles := ["parse.ts"]
  verificationHint := ""

private def renderNode : TaskNode where
  id := "render"
  description := "Render the page"
  language := "typescript"
  dependsOn := ["parse", "parse"]
  estimatedComplexity := .moderate
  outputFiles := ["render.ts"]
  verificationHint := ""

theorem topologicalSort_repeated_dependency :
    topologicalSort [renderNode, parseNode] = .ok [parseNode, renderNode] ∧
    ((∃ ordered, topologicalSort [renderNode, parseNode] = .ok ordered) ↔
      ¬ ∃ id, Relation.TransGen (NeededBy [renderNode, parseNode]) id id) ∧
    ∀ ordered, topologicalSort [renderNode, parseNode] = .ok ordered →
      DependencyOrder [renderNode, parseNode] ordered :=
  ⟨by decide, topologicalSort_ok_iff_acyclic (by decide) (by decide)⟩

end KirkForge
