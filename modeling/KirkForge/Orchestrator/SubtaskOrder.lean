import KirkForge.Orchestrator.DecompositionResponse
import KirkForge.Theory.Kahn

/-!
# Subtasks of a response in dependency order

`topologicalSort` (`decompose.ts`) on the subtasks that `parseDecompositionResponse` reads from a
model's answer. The sort knows a subtask by its id alone, and keeps the first subtask of each id: no
subtask is lost exactly when no two of them have one label (`subtasks_kept_iff`).
-/

namespace KirkForge.Decompose

variable {tasks sorted : List DecompositionSubtask} {t : DecompositionSubtask}

/-- The edges that the loop over the dependencies adds; others than the listed subtasks are left
out. -/
def dependencyEdges (tasks : List DecompositionSubtask) : List (Label × Label) :=
  tasks.flatMap fun t =>
    (t.dependsOn.filter fun dep => dep ∈ tasks.map (·.id)).map fun dep => (dep, t.id)

/-- The loop over the queue. -/
def kahnSorted (tasks : List DecompositionSubtask) : List DecompositionSubtask :=
  (Kahn.order (tasks.map (·.id)) (dependencyEdges tasks)).filterMap fun id =>
    tasks.find? (·.id = id)

/-- The body of the loop over the remaining tasks. -/
def appendMissing (sorted : List DecompositionSubtask) (t : DecompositionSubtask) :
    List DecompositionSubtask :=
  if (sorted.find? (·.id = t.id)).isSome then sorted else sorted ++ [t]

def topologicalSort (tasks : List DecompositionSubtask) : List DecompositionSubtask :=
  tasks.foldl appendMissing (kahnSorted tasks)

/-! ### One subtask for each id -/

theorem mem_dependencyEdges {dep id : Label} : (dep, id) ∈ dependencyEdges tasks ↔
    ∃ t ∈ tasks, (dep ∈ t.dependsOn ∧ dep ∈ tasks.map (·.id)) ∧ t.id = id := by
  rw [dependencyEdges]
  generalize tasks.map (·.id) = ids
  simp

theorem edge_mem {e : Label × Label} (he : e ∈ dependencyEdges tasks) :
    e.1 ∈ tasks.map (·.id) ∧ e.2 ∈ tasks.map (·.id) := by
  obtain ⟨t, ht, ⟨-, hdep⟩, hid⟩ := mem_dependencyEdges.mp he
  exact ⟨hdep, hid ▸ List.mem_map_of_mem ht⟩

/-- A subtask with each of the ids. -/
theorem map_id_find {ids : List Label} (hids : ids ⊆ tasks.map (·.id)) :
    (ids.filterMap fun id => tasks.find? (·.id = id)).map (·.id) = ids := by
  rw [List.map_filterMap]
  refine (List.filterMap_congr fun id hid => ?_).trans List.filterMap_some
  obtain ⟨t, ht, rfl⟩ := List.mem_map.mp (hids hid)
  cases hfind : tasks.find? (·.id = t.id) with
  | none => exact absurd (decide_eq_true rfl) (List.find?_eq_none.mp hfind t ht)
  | some t' =>
    have hid := List.find?_some hfind
    exact congrArg some (of_decide_eq_true hid)

theorem find?_isSome_iff {id : Label} :
    (tasks.find? (·.id = id)).isSome = true ↔ id ∈ tasks.map (·.id) := by
  simp [List.find?_isSome]

/-- Subtasks with distinct ids, from the list. -/
structure Chosen (tasks sorted : List DecompositionSubtask) : Prop where
  nodup : (sorted.map (·.id)).Nodup
  subset : sorted ⊆ tasks

theorem Chosen.appendMissing (h : Chosen tasks sorted) (ht : t ∈ tasks) :
    Chosen tasks (appendMissing sorted t) := by
  rw [Decompose.appendMissing]
  split
  · exact h
  · next hmissing =>
    rw [find?_isSome_iff] at hmissing
    refine ⟨?_, List.append_subset.mpr ⟨h.subset, List.cons_subset.mpr ⟨ht, List.nil_subset _⟩⟩⟩
    rw [List.map_append, List.map_singleton, List.nodup_append_comm, List.singleton_append,
      List.nodup_cons]
    exact ⟨hmissing, h.nodup⟩

theorem subset_appendMissing : sorted ⊆ appendMissing sorted t := by
  rw [appendMissing]
  split
  · exact List.Subset.refl _
  · exact List.subset_append_left _ _

theorem id_mem_appendMissing : t.id ∈ (appendMissing sorted t).map (·.id) := by
  rw [appendMissing]
  split
  · next h => exact find?_isSome_iff.mp h
  · simp

theorem foldl_appendMissing {rest : List DecompositionSubtask} (h : Chosen tasks sorted)
    (hrest : rest ⊆ tasks) : Chosen tasks (rest.foldl appendMissing sorted) ∧
      sorted ⊆ rest.foldl appendMissing sorted ∧
      ∀ t ∈ rest, t.id ∈ (rest.foldl appendMissing sorted).map (·.id) := by
  induction rest generalizing sorted with
  | nil => exact ⟨h, List.Subset.refl _, List.forall_mem_nil _⟩
  | cons t rest ih =>
    obtain ⟨ht, hrest⟩ := List.cons_subset.mp hrest
    obtain ⟨hchosen, hsub, hall⟩ := ih (h.appendMissing ht) hrest
    refine ⟨hchosen, fun _ h' => hsub (subset_appendMissing h'),
      List.forall_mem_cons.mpr ⟨?_, hall⟩⟩
    have hmem : t.id ∈ (appendMissing sorted t).map (·.id) := id_mem_appendMissing
    obtain ⟨t', ht', hid⟩ := List.mem_map.mp hmem
    exact hid ▸ List.mem_map_of_mem (hsub ht')

/-- Nothing is appended where no id is missing. -/
theorem foldl_appendMissing_self {rest : List DecompositionSubtask}
    (h : ∀ t ∈ rest, t.id ∈ sorted.map (·.id)) : rest.foldl appendMissing sorted = sorted := by
  induction rest with
  | nil => rfl
  | cons t rest ih =>
    obtain ⟨ht, h⟩ := List.forall_mem_cons.mp h
    rw [List.foldl_cons, appendMissing, if_pos (find?_isSome_iff.mpr ht), ih h]

theorem map_id_kahnSorted : (kahnSorted tasks).map (·.id) =
    Kahn.order (tasks.map (·.id)) (dependencyEdges tasks) :=
  map_id_find (Kahn.order_subset fun _ he => (edge_mem he).2)

theorem chosen_kahnSorted : Chosen tasks (kahnSorted tasks) where
  nodup := by
    rw [map_id_kahnSorted]
    exact Kahn.nodup_order fun _ he => (edge_mem he).2
  subset t ht := by
    obtain ⟨id, -, hfind⟩ := List.mem_filterMap.mp ht
    exact List.mem_of_find?_eq_some hfind

/-- The result has one subtask for each id. -/
theorem topologicalSort_spec (tasks : List DecompositionSubtask) :
    Chosen tasks (topologicalSort tasks) ∧
      ∀ t ∈ tasks, t.id ∈ (topologicalSort tasks).map (·.id) := by
  obtain ⟨hchosen, -, hall⟩ := foldl_appendMissing chosen_kahnSorted (List.Subset.refl tasks)
  exact ⟨hchosen, hall⟩

/-- No subtask is lost or repeated exactly when the ids are distinct. -/
theorem topologicalSort_perm_iff :
    (topologicalSort tasks).Perm tasks ↔ (tasks.map (·.id)).Nodup := by
  obtain ⟨hchosen, hall⟩ := topologicalSort_spec tasks
  constructor
  · intro hperm
    exact (hperm.map (·.id)).nodup_iff.mp hchosen.nodup
  · intro hids
    refine (List.perm_ext_iff_of_nodup hchosen.nodup.of_map hids.of_map).mpr fun t => ?_
    refine ⟨fun ht => hchosen.subset ht, fun ht => ?_⟩
    obtain ⟨t', ht', hid⟩ := List.mem_map.mp (hall t ht)
    rwa [← List.inj_on_of_nodup_map hids (hchosen.subset ht') ht hid]

/-! ### Order -/

/-- The subtask `id` lists the subtask `dep` among its dependencies. -/
def NeededInList (tasks : List DecompositionSubtask) (dep id : Label) : Prop :=
  ∃ t ∈ tasks, (dep ∈ t.dependsOn ∧ dep ∈ tasks.map (·.id)) ∧ t.id = id

/-- Every subtask comes after those of the list that it depends on. -/
def AfterDependencies (tasks sorted : List DecompositionSubtask) : Prop :=
  ∀ done t rest, sorted = done ++ t :: rest →
    ∀ dep ∈ t.dependsOn, dep ∈ tasks.map (·.id) → dep ∈ done.map (·.id)

/-- No subtask is lost or repeated, and without a cycle each comes after those it depends on. -/
def SubtasksKept (tasks : List DecompositionSubtask) : Prop :=
  (topologicalSort tasks).Perm tasks ∧
    ((¬∃ id, Relation.TransGen (NeededInList tasks) id id) →
      AfterDependencies tasks (topologicalSort tasks))

/-- Without a cycle the search finds every subtask, after its dependencies. -/
theorem topologicalSort_after
    (hacyclic : ¬∃ id, Relation.TransGen (NeededInList tasks) id id) :
    AfterDependencies tasks (topologicalSort tasks) := by
  have hedges : (fun dep id => (dep, id) ∈ dependencyEdges tasks) = NeededInList tasks := by
    funext dep id
    exact propext mem_dependencyEdges
  have hkahn : Kahn.Acyclic (dependencyEdges tasks) := by
    intro id hcycle
    rw [hedges] at hcycle
    exact hacyclic ⟨id, hcycle⟩
  have hall : ∀ t ∈ tasks, t.id ∈ (kahnSorted tasks).map (·.id) := by
    intro t ht
    rw [map_id_kahnSorted]
    exact Kahn.mem_order (fun _ he => (edge_mem he).1) (fun _ he => (edge_mem he).2) hkahn _
      (List.mem_map_of_mem ht)
  have hsort : topologicalSort tasks = kahnSorted tasks := foldl_appendMissing_self hall
  rw [hsort]
  intro done t rest heq dep hdep hlisted
  have ht : t ∈ tasks := chosen_kahnSorted.subset (heq ▸ List.mem_append_right _ List.mem_cons_self)
  have hids : (kahnSorted tasks).map (·.id) =
      Kahn.order (tasks.map (·.id)) (dependencyEdges tasks) := map_id_kahnSorted
  rw [heq, List.map_append, List.map_cons] at hids
  exact Kahn.closed_order (fun _ he => (edge_mem he).2) _ _ _ hids.symm dep
    (mem_dependencyEdges.mpr ⟨t, ht, ⟨hdep, hlisted⟩, rfl⟩)

/-! ### The labels in the answer -/

/-- The elements of the list in the fenced block, if the number of all tokens is given or the
numbers of the elements can be added. -/
def structuredItems (content : String) : Option (List Json) :=
  ((structuredList content).filter fun list =>
    (firstPresent list.1 ["totalEstimatedTokens"]).isSome ||
      (sumTokens (list.2.map itemTokens)).isSome).map Prod.snd

/-- The elements of the list in the text, if their numbers of tokens can be added. -/
def inlineItems (content : String) : Option (List Json) :=
  ((inlineList content).filter fun list => (sumTokens (list.2.map itemTokens)).isSome).map Prod.snd

/-- The labels of the items of a list. -/
def lineLabels (content : String) : List Label :=
  (contentLines content).foldl (fun labels line =>
    match lineItem labels.length line with
    | some (idx, _) => labels ++ [lineLabel idx]
    | none => labels) []

/-- What the answer calls its subtasks: the ids of the elements, or `sub-` with the number of the
item. -/
def labels (content : String) : List Label :=
  match (structuredItems content).or (inlineItems content) with
  | some items => items.mapIdx itemLabel
  | none => if lineLabels content = [] then [.text "sub-1"] else lineLabels content

variable (content rootTask : String)

theorem map_mapIdx {α β γ : Type} (f : Nat → α → β) (g : β → γ) (l : List α) :
    (l.mapIdx f).map g = l.mapIdx fun i a => g (f i a) := by
  refine List.ext_getElem? fun i => ?_
  rw [List.getElem?_map, List.getElem?_mapIdx, List.getElem?_mapIdx, Option.map_map]
  rfl

/-- The tokens of the subtasks that are made of the items. -/
theorem map_itemTokens {subtask : Nat → Json → DecompositionSubtask}
    (h : ∀ i t, (subtask i t).estimatedTokens = itemTokens t) (items : List Json) :
    (items.mapIdx subtask).map DecompositionSubtask.estimatedTokens = items.map itemTokens := by
  simp only [map_mapIdx, h]
  exact List.mapIdx_eq_iff.mpr fun i => List.getElem?_map

theorem ids_parseStructured : (parseStructured content rootTask).map (·.subtasks.map (·.id)) =
    (structuredItems content).map (·.mapIdx itemLabel) := by
  rw [parseStructured, structuredItems]
  cases structuredList content with
  | none => rfl
  | some list =>
    obtain ⟨parsed, items⟩ := list
    have hids : (items.mapIdx (structuredSubtask rootTask)).map (·.id) = items.mapIdx itemLabel :=
      map_mapIdx _ _ _
    have htokens := @map_itemTokens (structuredSubtask rootTask) (fun _ _ => rfl) items
    simp only [Option.bind_some, htokens, Option.map_map, Function.comp_def, hids,
      Option.filter_some]
    cases firstPresent parsed ["totalEstimatedTokens"] with
    | some named => rfl
    | none => cases sumTokens (items.map itemTokens) <;> rfl

theorem ids_parseInline : (parseInline content rootTask).map (·.subtasks.map (·.id)) =
    (inlineItems content).map (·.mapIdx itemLabel) := by
  rw [parseInline, inlineItems]
  cases inlineList content with
  | none => rfl
  | some list =>
    obtain ⟨parsed, items⟩ := list
    have hids : (items.mapIdx (inlineSubtask rootTask)).map (·.id) = items.mapIdx itemLabel :=
      map_mapIdx _ _ _
    have htokens := @map_itemTokens (inlineSubtask rootTask) (fun _ _ => rfl) items
    simp only [Option.bind_some, htokens, Option.map_map, Function.comp_def, hids,
      Option.filter_some]
    cases sumTokens (items.map itemTokens) <;> rfl

/-- The place that a bullet gets is the number of items before it. -/
theorem ids_foldl_addLine (lines : List String) (subtasks : List DecompositionSubtask) :
    (lines.foldl addLine subtasks).map (·.id) =
      lines.foldl (fun labels line =>
        match lineItem labels.length line with
        | some (idx, _) => labels ++ [lineLabel idx]
        | none => labels) (subtasks.map (·.id)) := by
  induction lines generalizing subtasks with
  | nil => rfl
  | cons line lines ih =>
    rw [List.foldl_cons, List.foldl_cons, ih, addLine, List.length_map]
    cases lineItem subtasks.length line with
    | none => rfl
    | some item => exact congrArg (fun ids => List.foldl _ ids lines) (List.map_append ..)

theorem ids_parseLines : (parseLines content rootTask).subtasks.map (·.id) =
    if lineLabels content = [] then [.text "sub-1"] else lineLabels content := by
  have hids : ((contentLines content).foldl addLine []).map (·.id) = lineLabels content :=
    ids_foldl_addLine _ _
  rw [parseLines, ← hids]
  simp only [List.map_eq_nil_iff]
  split <;> rfl

theorem ids_parse :
    (parseDecompositionResponse content rootTask).subtasks.map (·.id) = labels content := by
  have hstructured := ids_parseStructured content rootTask
  have hinline := ids_parseInline content rootTask
  rw [parseDecompositionResponse, labels]
  cases hs : parseStructured content rootTask with
  | some parsed =>
    rw [hs] at hstructured
    obtain ⟨items, hitems, heq⟩ := Option.map_eq_some_iff.mp hstructured.symm
    rw [hitems]
    exact heq.symm
  | none =>
    rw [hs] at hstructured
    rw [Option.map_eq_none_iff.mp hstructured.symm, Option.none_or, Option.none_or]
    cases hi : parseInline content rootTask with
    | some parsed =>
      rw [hi] at hinline
      obtain ⟨items, hitems, heq⟩ := Option.map_eq_some_iff.mp hinline.symm
      rw [hitems]
      exact heq.symm
    | none =>
      rw [hi] at hinline
      rw [Option.map_eq_none_iff.mp hinline.symm]
      exact ids_parseLines content rootTask

/-- No subtask of an answer is lost, and each comes after its dependencies, exactly when no two have
one label. -/
theorem subtasks_kept_iff (content rootTask : String) :
    SubtasksKept (parseDecompositionResponse content rootTask).subtasks ↔
      (labels content).Nodup := by
  rw [SubtasksKept, topologicalSort_perm_iff, ids_parse]
  exact ⟨And.left, fun h => ⟨h, topologicalSort_after⟩⟩

/-- A list whose numbering starts again: the second item is lost. -/
theorem renumbered_item_lost : ¬∀ content rootTask : String,
    SubtasksKept (parseDecompositionResponse content rootTask).subtasks := by
  intro h
  have hperm := (h "1. a\n1. b" "t").1
  rw [topologicalSort_perm_iff, ids_parse] at hperm
  have hlabels : labels "1. a\n1. b" = [.text "sub-1", .text "sub-1"] := by decide +kernel
  rw [hlabels] at hperm
  exact absurd hperm (by decide)

end KirkForge.Decompose
