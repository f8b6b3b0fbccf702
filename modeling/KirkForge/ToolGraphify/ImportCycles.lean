import KirkForge.Theory.DepthFirst
import KirkForge.Theory.OrderedMap
import Mathlib.Data.List.Induction

/-!
# Import cycles

The cycle check of the graph verifier (`packages/tool-graphify/src/index.ts`): the edges are
collected in a map from each file to the files it imports, and a depth-first search counts the
edges back to a file that is still open. It counts one exactly when some file imports itself
through a chain of imports (`detectCycles_exact`).
-/

namespace KirkForge.Graphify

inductive EdgeInfo.Kind
  | «import» | typeOnly | dynamic
  deriving DecidableEq, Repr

structure EdgeInfo where
  «from» : String
  «to» : String
  kind : EdgeInfo.Kind
  deriving DecidableEq, Repr

abbrev ImportGraph := OrderedMap String (List String)

def addEdge (graph : ImportGraph) (e : EdgeInfo) : ImportGraph :=
  let graph := graph.set e.from ((graph.get? e.from).getD [] ++ [e.to])
  if graph.has e.to then graph else graph.set e.to []

def importGraph (edges : List EdgeInfo) : ImportGraph := edges.foldl addEdge ∅

/-- The files that `graph` lists for `node`. -/
def neighbors (graph : ImportGraph) (node : String) : List String := (graph.get? node).getD []

/-- `none` if more calls of `dfs` are open than the stack holds. -/
def detectCycles (stack : Nat) (edges : List EdgeInfo) : Option Nat :=
  let graph := importGraph edges
  (DepthFirst.search (neighbors graph) stack graph.keys).map (·.cycles)

variable {graph : ImportGraph} {edges : List EdgeInfo} {e : EdgeInfo} {a b node : String}

/-! ### The graph -/

@[simp] theorem neighbors_set {files : List String} :
    neighbors (graph.set a files) b = if a = b then files else neighbors graph b := by
  rw [neighbors, OrderedMap.get?_set]
  split <;> rfl

theorem mem_keys_set {files : List String} :
    b ∈ (graph.set a files).keys ↔ a = b ∨ b ∈ graph.keys := by
  rw [← OrderedMap.has_iff_mem_keys, ← OrderedMap.has_iff_mem_keys, OrderedMap.has,
    OrderedMap.get?_set]
  split
  · next h => simp [h]
  · next h => simp [h, OrderedMap.has]

theorem neighbors_of_not_has (h : ¬graph.has node = true) : neighbors graph node = [] := by
  rw [OrderedMap.has_iff_mem_keys, ← OrderedMap.get?_eq_none_iff] at h
  rw [neighbors, h]
  rfl

theorem neighbors_addEdge : neighbors (addEdge graph e) node =
    if e.from = node then neighbors graph node ++ [e.to] else neighbors graph node := by
  have hlist : neighbors (graph.set e.from (neighbors graph e.from ++ [e.to])) node =
      if e.from = node then neighbors graph node ++ [e.to] else neighbors graph node := by
    rw [neighbors_set]
    split
    · next h => rw [h]
    · rfl
  rw [← hlist]
  show neighbors (if OrderedMap.has _ e.to then _ else _) node = _
  split
  · rfl
  · next hto =>
    rw [neighbors_set]
    split
    · next h => exact (neighbors_of_not_has (h ▸ hto)).symm
    · rfl

theorem mem_keys_addEdge :
    node ∈ (addEdge graph e).keys ↔ e.from = node ∨ e.to = node ∨ node ∈ graph.keys := by
  show node ∈ (if OrderedMap.has _ e.to then _ else _ : ImportGraph).keys ↔ _
  split
  · next hto =>
    rw [OrderedMap.has_iff_mem_keys, mem_keys_set] at hto
    rw [mem_keys_set]
    constructor
    · rintro (h | h)
      · exact .inl h
      · exact .inr (.inr h)
    · rintro (h | rfl | h)
      · exact .inl h
      · exact hto
      · exact .inr h
  · rw [mem_keys_set, mem_keys_set]
    exact or_left_comm

/-- Some edge leads from `a` to `b`. -/
def Imports (edges : List EdgeInfo) (a b : String) : Prop := ∃ e ∈ edges, e.from = a ∧ e.to = b

theorem mem_neighbors : b ∈ neighbors (importGraph edges) a ↔ Imports edges a b := by
  induction edges using List.reverseRecOn with
  | nil => simp [importGraph, neighbors, Imports]
  | append_singleton edges e ih =>
    have hlast : Imports (edges ++ [e]) a b ↔ Imports edges a b ∨ e.from = a ∧ e.to = b := by
      simp [Imports, or_and_right, exists_or]
    rw [importGraph, List.foldl_append, List.foldl_cons, List.foldl_nil, ← importGraph, hlast,
      neighbors_addEdge, ← ih]
    split
    · next h => simp [h, eq_comm]
    · next h => simp [h]

theorem mem_keys : node ∈ (importGraph edges).keys ↔ ∃ e ∈ edges, e.from = node ∨ e.to = node := by
  induction edges using List.reverseRecOn with
  | nil => simp [importGraph, ← OrderedMap.has_iff_mem_keys, OrderedMap.has]
  | append_singleton edges e ih =>
    rw [importGraph, List.foldl_append, List.foldl_cons, List.foldl_nil, ← importGraph,
      mem_keys_addEdge, ih, ← or_assoc]
    simp [or_and_right, exists_or, or_comm]

/-! ### Cycles -/

/-- The edges to files that import something themselves. -/
def knownEdges (edges : List EdgeInfo) : List EdgeInfo :=
  edges.filter fun e => e.to ∈ edges.map (·.from)

/-- Some file imports itself through a chain of imports. -/
def Cyclic (edges : List EdgeInfo) : Prop := ∃ file, Relation.TransGen (Imports edges) file file

theorem imports_knownEdges : Imports (knownEdges edges) a b ↔
    Imports edges a b ∧ ∃ c, Imports edges b c := by
  constructor
  · rintro ⟨e, he, rfl, rfl⟩
    obtain ⟨he, hknown⟩ := List.mem_filter.mp he
    obtain ⟨e', he', hfrom⟩ := List.mem_map.mp (of_decide_eq_true hknown)
    exact ⟨⟨e, he, rfl, rfl⟩, e'.to, e', he', hfrom, rfl⟩
  · rintro ⟨⟨e, he, rfl, rfl⟩, c, e', he', hfrom, -⟩
    have hknown : e.to ∈ edges.map (·.from) := List.mem_map.mpr ⟨e', he', hfrom⟩
    exact ⟨e, List.mem_filter.mpr ⟨he, decide_eq_true hknown⟩, rfl, rfl⟩

/-- Every edge of a cycle leads to a file that imports something. -/
theorem cyclic_knownEdges : Cyclic (knownEdges edges) ↔ Cyclic edges := by
  constructor
  · rintro ⟨file, h⟩
    exact ⟨file, Relation.TransGen.mono (fun _ _ h => (imports_knownEdges.mp h).1) file file h⟩
  · rintro ⟨file, h⟩
    have hchain {a b : String} (h : Relation.TransGen (Imports edges) a b)
        (hb : ∃ c, Imports edges b c) : Relation.TransGen (Imports (knownEdges edges)) a b := by
      induction h with
      | single hstep => exact .single (imports_knownEdges.mpr ⟨hstep, hb⟩)
      | tail _ hstep ih => exact (ih ⟨_, hstep⟩).tail (imports_knownEdges.mpr ⟨hstep, hb⟩)
    obtain ⟨next, hnext, -⟩ := Relation.TransGen.head'_iff.mp h
    exact ⟨file, hchain h ⟨next, hnext⟩⟩

/-- The number of files that occur in the edges. -/
def fileCount (edges : List EdgeInfo) : Nat := (importGraph edges).keys.length

theorem path_iff : DepthFirst.Path (neighbors (importGraph edges)) a b ↔
    Relation.TransGen (Imports edges) a b := by
  have hrel : (fun a b => b ∈ neighbors (importGraph edges) a) = Imports edges :=
    funext₂ fun _ _ => propext mem_neighbors
  rw [DepthFirst.Path, hrel]

/-- With as many calls on the stack as there are files, the check ends, with a count that does not
depend on the size of the stack and is positive exactly when the known edges have a cycle. -/
theorem detectCycles_exact (edges : List EdgeInfo) : ∃ cycles,
    (∀ stack, fileCount edges ≤ stack → detectCycles stack edges = some cycles) ∧
      (0 < cycles ↔ Cyclic (knownEdges edges)) := by
  have hclosed : ∀ x ∈ (importGraph edges).keys, ∀ y ∈ neighbors (importGraph edges) x,
      y ∈ (importGraph edges).keys := by
    intro x _ y hy
    obtain ⟨e, he, -, hto⟩ := mem_neighbors.mp hy
    exact mem_keys.mpr ⟨e, he, .inr hto⟩
  obtain ⟨s, hs⟩ := DepthFirst.exists_search hclosed
  refine ⟨s.cycles, fun stack hstack => by rw [detectCycles, hs stack hstack]; rfl, ?_⟩
  have hsearch := hs _ (Nat.le_refl _)
  rw [cyclic_knownEdges]
  constructor
  · intro hlt
    obtain ⟨x, hx⟩ := DepthFirst.circle_of_lt hsearch hlt
    exact ⟨x, path_iff.mp hx⟩
  · rintro ⟨x, hx⟩
    obtain ⟨next, ⟨e, he, hfrom, -⟩, -⟩ := Relation.TransGen.head'_iff.mp hx
    have hmem : x ∈ (importGraph edges).keys := mem_keys.mpr ⟨e, he, .inl hfrom⟩
    refine Nat.pos_of_ne_zero fun hzero => ?_
    exact DepthFirst.no_circle_of_eq hsearch hzero hmem (path_iff.mpr hx)

-- `b.ts` is reached twice, which is no cycle
example : detectCycles 3 [⟨"a.ts", "b.ts", .import⟩, ⟨"c.ts", "b.ts", .import⟩] = some 0 := by
  decide

example : detectCycles 1 [⟨"a.ts", "a.ts", .dynamic⟩] = some 1 := by decide

end KirkForge.Graphify
