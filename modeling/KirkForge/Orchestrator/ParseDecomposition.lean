import KirkForge.Orchestrator.TopologicalSort
import KirkForge.Theory.JsonCoercion
import KirkForge.Theory.Occurrence
import KirkForge.Theory.Outcome
import KirkForge.Theory.TextUnits

/-!
# Parsing a decomposition

`parseDecomposition` of `orchestrator-decompose.ts`: the nodes that a model's answer lists. A value
that is accepted is a list of nodes in dependency order (`ValidTasks`). The parser throws where it
comes to an element that is `null`, or to a field whose value has no text; it returns a result on
every other answer (`parseDecomposition_total`).
-/

namespace KirkForge

open Text (indexOf lastIndexOf)

/-! ### The text of the array -/

def fence : List Char := ['`', '`', '`']

/-- What follows a fence behind `(?:json)?\s*\n?`. -/
def blockBody (opened : List Char) : List Char :=
  Text.trimStart (if "json".toList <+: opened then opened.drop 4 else opened)

/-- `jsonStr.match(/```(?:json)?\s*\n?([\s\S]*?)```/)`, and the group of the match. -/
def codeBlock (cs : List Char) : Option (List Char) :=
  (indexOf fence cs).bind fun start =>
    let body := blockBody (cs.drop (start + 3))
    (indexOf fence body).map body.take

def fromBracket (cs : List Char) : List Char :=
  match indexOf ['[', '{'] cs with
  | some (bracketPair + 1) => cs.drop (bracketPair + 1)
  | _ =>
    match indexOf ['['] cs with
    | some (braceStart + 1) => cs.drop (braceStart + 1)
    | _ => cs

def toBracket (cs : List Char) : List Char :=
  match lastIndexOf ['}', ']'] cs with
  | some (braceEnd + 1) => cs.take (braceEnd + 1 + 2)
  | _ =>
    match lastIndexOf [']'] cs with
    | some (bEnd + 1) => if bEnd + 1 < cs.length - 1 then cs.take (bEnd + 1 + 1) else cs
    | _ => cs

/-- The text that is parsed as JSON. -/
def extractJson (raw : String) : String :=
  let trimmed := (Text.trim raw).toList
  let jsonStr :=
    match codeBlock trimmed with
    | some body => Text.trimEnd (Text.trimStart body)
    | none => trimmed
  String.ofList (toBracket (fromBracket jsonStr))

def parseTasks (syntaxMessage : String → String) (raw : String) : Except String (List Json) :=
  match Json.read (extractJson raw) with
  | none => .error ("Failed to parse decomposition JSON: " ++ syntaxMessage (extractJson raw))
  | some (.arr tasks) => .ok tasks
  | some _ => .error "Decomposition output must be a JSON array"

/-! ### The nodes -/

def EstimatedComplexity.text : EstimatedComplexity → String
  | trivial => "trivial"
  | simple => "simple"
  | moderate => "moderate"
  | complex => "complex"

def validComplexities : List EstimatedComplexity := [.trivial, .simple, .moderate, .complex]

def complexityOf (text : String) : Option EstimatedComplexity :=
  validComplexities.find? (·.text = text)

/-- `String(value ?? fallback)`; `none` when it throws. -/
def textOr (fallback : String) (value : Option Json) : Option String :=
  match value with
  | none | some .null => some fallback
  | some v => v.literal

/-- `Array.isArray(value) ? value.map(String) : []`; `none` when it throws. -/
def textList (value : Option Json) : Option (List String) :=
  match value with
  | some (.arr items) => items.mapM Json.literal
  | _ => some []

/-- `t.id`, for the element at place `i`. -/
def taskId (i : Nat) (t : Json) : Option String :=
  textOr ("task-" ++ toString (i + 1)) (t.get? "id")

/-- The fields of a node apart from the id and the complexity. -/
def taskFields (t : Json) (id : String) (estimatedComplexity : EstimatedComplexity) :
    Option TaskNode :=
  (textOr "" (t.get? "description")).bind fun description =>
  (textOr "text" (t.get? "language")).bind fun language =>
  (textList (t.get? "dependsOn")).bind fun dependsOn =>
  (textList (t.get? "outputFiles")).bind fun outputFiles =>
  (textOr "" (t.get? "verificationHint")).map fun verificationHint => {
    id
    description := Text.sliceUnits 500 description
    language
    dependsOn
    estimatedComplexity
    outputFiles := outputFiles.take 20
    verificationHint := Text.sliceUnits 200 verificationHint }

/-- The body of the loop over the elements. -/
def readTask (i : Nat) (ids : List String) (t : Json) : Outcome String TaskNode :=
  if t = .null then .orThrow none
  else do
    let id ← .orThrow (taskId i t)
    if id ∈ ids then throw ("Duplicate task id: " ++ id)
    else
      let complexity ← .orThrow (textOr "moderate" (t.get? "estimatedComplexity"))
      match complexityOf complexity with
      | none => throw ("Invalid complexity \"" ++ complexity ++ "\" in task " ++ id)
      | some estimatedComplexity => .orThrow (taskFields t id estimatedComplexity)

/-- The loop over the elements from place `i` on, where `ids` have been seen. -/
def readTasks : Nat → List String → List Json → Outcome String (List TaskNode)
  | _, _, [] => pure []
  | i, ids, t :: tasks => do
    let node ← readTask i ids t
    let nodes ← readTasks (i + 1) (ids ++ [node.id]) tasks
    pure (node :: nodes)

/-- The first dependency of a node that is not among the ids. -/
def validateDependencies (ids : List String) : List TaskNode → Except String Unit
  | [] => .ok ()
  | node :: nodes =>
    if node.id ∈ node.dependsOn then .error ("Task " ++ node.id ++ " cannot depend on itself")
    else
      match node.dependsOn.find? (· ∉ ids) with
      | some dep => .error ("Task " ++ node.id ++ " depends on unknown task: " ++ dep)
      | none => validateDependencies ids nodes

def validLanguages : List String :=
  ["typescript", "javascript", "python", "shell", "cpp", "c", "rust", "go", "sql", "text"]

def TaskNode.withValidLanguage (node : TaskNode) : TaskNode :=
  if node.language ∈ validLanguages then node else { node with language := "text" }

structure DecompositionResult where
  rootTask : String
  tasks : List TaskNode
  totalEstimatedTokens : Nat
  rationale : String
  deriving DecidableEq, Repr

def decompositionOf (sorted : List TaskNode) : DecompositionResult where
  rootTask := ""
  tasks := sorted
  totalEstimatedTokens :=
    sorted.length * 400 + (sorted.map fun n => Text.units n.description).sum
  rationale := "Decomposed into " ++ toString sorted.length ++ " subtasks (" ++
    toString (sorted.filter fun n => n.dependsOn.length > 0).length ++ " with dependencies)"

/-- The message of the exception with which `JSON.parse` refuses a text is an input. -/
def parseDecomposition (syntaxMessage : String → String) (raw : String) :
    Outcome String DecompositionResult := do
  let tasks ← .ofExcept (parseTasks syntaxMessage raw)
  if tasks.length = 0 then throw "Decomposition produced zero subtasks"
  else
    let nodes ← readTasks 0 [] tasks
    .ofExcept (validateDependencies (nodes.map (·.id)) nodes)
    if nodes.length > 24 then
      throw ("Decomposition produced " ++ toString nodes.length ++ " subtasks; maximum is 24")
    else
      let sorted ← .ofExcept (topologicalSort (nodes.map TaskNode.withValidLanguage))
      pure (decompositionOf sorted)

/-! ### Nodes that are read -/

variable {i : Nat} {ids : List String} {t : Json} {tasks : List Json} {node : TaskNode}
  {nodes : List TaskNode}

/-- Every field that the parser converts has a text. -/
def FieldsHaveText (t : Json) : Prop :=
  (∃ s, textOr "" (t.get? "description") = some s) ∧
  (∃ s, textOr "text" (t.get? "language") = some s) ∧
  (∃ l, textList (t.get? "dependsOn") = some l) ∧
  (∃ l, textList (t.get? "outputFiles") = some l) ∧
  ∃ s, textOr "" (t.get? "verificationHint") = some s

/-- The elements from place `i` on are not `null` and their fields have texts, up to the first one
that repeats one of the ids or has another complexity than the four. -/
def HaveText : Nat → List String → List Json → Prop
  | _, _, [] => True
  | i, ids, t :: tasks =>
    t ≠ .null ∧ ∃ id, taskId i t = some id ∧ (id ∉ ids →
      ∃ complexity, textOr "moderate" (t.get? "estimatedComplexity") = some complexity ∧
        (complexityOf complexity ≠ none →
          FieldsHaveText t ∧ HaveText (i + 1) (ids ++ [id]) tasks))

theorem exists_taskFields {id : String} {c : EstimatedComplexity} :
    (∃ node, taskFields t id c = some node) ↔ FieldsHaveText t := by
  simp only [taskFields, FieldsHaveText, Option.bind_eq_some_iff, Option.map_eq_some_iff]
  constructor
  · rintro ⟨node, s, hs, l, hl, d, hd, o, ho, v, hv, -⟩
    exact ⟨⟨s, hs⟩, ⟨l, hl⟩, ⟨d, hd⟩, ⟨o, ho⟩, v, hv⟩
  · rintro ⟨⟨s, hs⟩, ⟨l, hl⟩, ⟨d, hd⟩, ⟨o, ho⟩, v, hv⟩
    exact ⟨_, s, hs, l, hl, d, hd, o, ho, v, hv, rfl⟩

theorem id_of_taskFields {id : String} {c : EstimatedComplexity}
    (h : taskFields t id c = some node) : node.id = id := by
  simp only [taskFields, Option.bind_eq_some_iff, Option.map_eq_some_iff] at h
  obtain ⟨s, -, l, -, d, -, o, -, v, -, rfl⟩ := h
  rfl

theorem gives_readTask : (readTask i ids t).Gives node ↔ t ≠ .null ∧
    ∃ id, taskId i t = some id ∧ id ∉ ids ∧
      ∃ complexity, textOr "moderate" (t.get? "estimatedComplexity") = some complexity ∧
        ∃ c, complexityOf complexity = some c ∧ taskFields t id c = some node := by
  rw [readTask]
  split
  · next hnull => simp [hnull]
  · next hnull =>
    simp only [Outcome.gives_bind, Outcome.gives_orThrow, Outcome.gives_ite_throw, hnull, ne_eq,
      not_false_eq_true, true_and]
    refine exists_congr fun id => and_congr_right fun _ => and_congr_right fun _ =>
      exists_congr fun complexity => and_congr_right fun _ => ?_
    cases complexityOf complexity with
    | none => simp
    | some c => simp

theorem returns_readTask : (readTask i ids t).Returns ↔ t ≠ .null ∧
    ∃ id, taskId i t = some id ∧ (id ∉ ids →
      ∃ complexity, textOr "moderate" (t.get? "estimatedComplexity") = some complexity ∧
        (complexityOf complexity ≠ none → FieldsHaveText t)) := by
  rw [readTask]
  split
  · next hnull => simp [hnull]
  · next hnull =>
    simp only [Outcome.returns_orThrow_bind, Outcome.returns_ite_throw, hnull, ne_eq,
      not_false_eq_true, true_and]
    refine exists_congr fun id => and_congr_right fun _ => imp_congr_right fun _ =>
      exists_congr fun complexity => and_congr_right fun _ => ?_
    cases complexityOf complexity with
    | none => simp
    | some c => simp [exists_taskFields]

/-- The loop comes to its end, or to an error, exactly when what it reads has a text. -/
theorem returns_readTasks : (readTasks i ids tasks).Returns ↔ HaveText i ids tasks := by
  induction tasks generalizing i ids with
  | nil => exact iff_of_true Outcome.returns_pure trivial
  | cons t tasks ih =>
    simp only [readTasks, Outcome.returns_bind, Outcome.returns_pure, implies_true, and_true, ih,
      returns_readTask, gives_readTask, HaveText, and_assoc]
    refine and_congr_right fun hnull => ?_
    constructor
    · rintro ⟨⟨id, hid, hfresh⟩, hrest⟩
      refine ⟨id, hid, fun hmem => ?_⟩
      obtain ⟨complexity, hcomplexity, hfields⟩ := hfresh hmem
      refine ⟨complexity, hcomplexity, fun hne => ?_⟩
      obtain ⟨c, hc⟩ := Option.ne_none_iff_exists'.mp hne
      obtain ⟨node, hnode⟩ := exists_taskFields.mpr (hfields hne)
      have hrest := hrest node ⟨hnull, id, hid, hmem, complexity, hcomplexity, c, hc, hnode⟩
      rw [id_of_taskFields hnode] at hrest
      exact ⟨hfields hne, hrest⟩
    · rintro ⟨id, hid, hfresh⟩
      refine ⟨⟨id, hid, fun hmem => ?_⟩, ?_⟩
      · obtain ⟨complexity, hcomplexity, hfields⟩ := hfresh hmem
        exact ⟨complexity, hcomplexity, fun hne => (hfields hne).1⟩
      · rintro node ⟨-, id', hid', hmem, complexity, hcomplexity, c, hc, hnode⟩
        obtain rfl : id = id' := Option.some.inj (hid.symm.trans hid')
        obtain ⟨complexity', hcomplexity', hfields⟩ := hfresh hmem
        obtain rfl : complexity = complexity' :=
          Option.some.inj (hcomplexity.symm.trans hcomplexity')
        rw [id_of_taskFields hnode]
        exact (hfields (Option.ne_none_iff_exists'.mpr ⟨c, hc⟩)).2

/-- One node is read for each element, and no id repeats another or one that was seen. -/
theorem gives_readTasks (h : (readTasks i ids tasks).Gives nodes) :
    nodes.length = tasks.length ∧ (nodes.map (·.id)).Nodup ∧ ∀ n ∈ nodes, n.id ∉ ids := by
  induction tasks generalizing i ids nodes with
  | nil =>
    obtain rfl := Outcome.gives_pure.mp h
    exact ⟨rfl, List.nodup_nil, List.forall_mem_nil _⟩
  | cons t tasks ih =>
    simp only [readTasks, Outcome.gives_bind, Outcome.gives_pure] at h
    obtain ⟨node, hnode, rest, hrest, rfl⟩ := h
    obtain ⟨-, id, -, hid, _, -, c, -, hfields⟩ := gives_readTask.mp hnode
    obtain rfl := id_of_taskFields hfields
    obtain ⟨hlen, hnodup, hfresh⟩ := ih hrest
    refine ⟨congrArg Nat.succ hlen, ?_, List.forall_mem_cons.mpr ⟨hid, fun n hn hmem => ?_⟩⟩
    · rw [List.map_cons, List.nodup_cons]
      refine ⟨fun hmem => ?_, hnodup⟩
      obtain ⟨n, hn, heq⟩ := List.mem_map.mp hmem
      exact hfresh n hn (List.mem_append_right _ (List.mem_singleton.mpr heq))
    · exact hfresh n hn (List.mem_append_left _ hmem)

/-! ### Results -/

/-- What a decomposition of `count` elements should be. -/
structure ValidTasks (count : Nat) (tasks : List TaskNode) : Prop where
  length_eq : tasks.length = count
  nodup : (tasks.map (·.id)).Nodup
  closed : ∀ n ∈ tasks, ∀ dep ∈ n.dependsOn, dep ∈ tasks.map (·.id)
  acyclic : ¬∃ id, Relation.TransGen (NeededBy tasks) id id
  before : ∀ done n rest, tasks = done ++ n :: rest → ∀ dep ∈ n.dependsOn, dep ∈ done.map (·.id)
  length_le : tasks.length ≤ 24
  language : ∀ n ∈ tasks, n.language ∈ validLanguages

theorem DependencyOrder.acyclic_ordered {ordered : List TaskNode}
    (h : DependencyOrder nodes ordered) : ¬∃ id, Relation.TransGen (NeededBy ordered) id id := by
  have hself : DependencyOrder ordered ordered := ⟨h.nodup, List.Perm.refl _, h.before⟩
  rintro ⟨id, hcycle⟩
  rw [← dependencyEdges_eq_neededBy] at hcycle
  exact hself.acyclic id hcycle

theorem DependencyOrder.closed_ordered {ordered : List TaskNode}
    (h : DependencyOrder nodes ordered) :
    ∀ n ∈ ordered, ∀ dep ∈ n.dependsOn, dep ∈ ordered.map (·.id) := by
  intro n hn dep hdep
  obtain ⟨done, rest, rfl⟩ := List.append_of_mem hn
  rw [List.map_append]
  exact List.mem_append_left _ (h.before done n rest rfl dep hdep)

theorem withValidLanguage_language (n : TaskNode) :
    n.withValidLanguage.language ∈ validLanguages := by
  rw [TaskNode.withValidLanguage]
  split
  · next h => exact h
  · exact List.mem_of_elem_eq_true rfl

variable {syntaxMessage : String → String} {raw : String}

theorem parseTasks_eq_ok : parseTasks syntaxMessage raw = .ok tasks ↔
    Json.read (extractJson raw) = some (.arr tasks) := by
  unfold parseTasks
  cases Json.read (extractJson raw) with
  | none => exact ⟨nofun, nofun⟩
  | some j =>
    cases j with
    | arr items => simp
    | null | bool b | num q | str s | obj fields => simp

/-- What is accepted is a list of nodes in dependency order, one for each element. -/
theorem validTasks_of_gives {result : DecompositionResult}
    (h : (parseDecomposition syntaxMessage raw).Gives result) :
    ∃ tasks, Json.read (extractJson raw) = some (.arr tasks) ∧
      ValidTasks tasks.length result.tasks := by
  simp only [parseDecomposition, Outcome.gives_bind, Outcome.gives_ofExcept,
    Outcome.gives_ite_throw, Outcome.gives_pure] at h
  obtain ⟨tasks, htasks, -, nodes, hnodes, -, hdeps, hmax, sorted, hsorted, rfl⟩ := h
  refine ⟨tasks, parseTasks_eq_ok.mp htasks, ?_⟩
  have horder := topologicalSort_ok hsorted
  have hlen : sorted.length = nodes.length := by rw [horder.perm.length_eq, List.length_map]
  exact {
    length_eq := hlen.trans (gives_readTasks hnodes).1
    nodup := horder.nodup
    closed := horder.closed_ordered
    acyclic := horder.acyclic_ordered
    before := horder.before
    length_le := hlen ▸ Nat.le_of_not_lt hmax
    language := fun n hn => by
      obtain ⟨n', -, rfl⟩ := List.mem_map.mp (horder.perm.mem_iff.mp hn)
      exact withValidLanguage_language n' }

/-- A call returns unless it comes to an element or a field that has no text. -/
theorem returns_parseDecomposition : (parseDecomposition syntaxMessage raw).Returns ↔
    ∀ tasks, Json.read (extractJson raw) = some (.arr tasks) → HaveText 0 [] tasks := by
  simp only [parseDecomposition, Outcome.returns_bind, Outcome.returns_ofExcept, true_and,
    Outcome.gives_ofExcept, Outcome.returns_ite_throw, Outcome.returns_pure, implies_true,
    and_true, parseTasks_eq_ok, returns_readTasks]
  refine forall_congr' fun tasks => imp_congr_right fun _ => ?_
  cases tasks with
  | nil => simp [HaveText]
  | cons t tasks => simp

/-- A call returns a result, which is valid if it is ok, exactly when every element that the loop
comes to is other than `null` and has texts in its fields. -/
theorem parseDecomposition_total (syntaxMessage : String → String) (raw : String) :
    ((parseDecomposition syntaxMessage raw).Returns ∧
      ∀ result, (parseDecomposition syntaxMessage raw).Gives result →
        ∃ tasks, Json.read (extractJson raw) = some (.arr tasks) ∧
          ValidTasks tasks.length result.tasks) ↔
    ∀ tasks, Json.read (extractJson raw) = some (.arr tasks) → HaveText 0 [] tasks := by
  rw [← returns_parseDecomposition]
  exact and_iff_left fun result h => validTasks_of_gives h

/-- An answer that lists `null`. -/
theorem parseDecomposition_null :
    ¬∀ raw, (parseDecomposition (fun _ => "") raw).Returns ∧
      ∀ result, (parseDecomposition (fun _ => "") raw).Gives result →
        ∃ tasks, Json.read (extractJson raw) = some (.arr tasks) ∧
          ValidTasks tasks.length result.tasks := by
  intro h
  obtain ⟨result, hresult⟩ := (h "[null]").1
  have hthrows : ((parseDecomposition (fun _ => "") "[null]").run).isSome = false := by
    decide +kernel
  rw [hresult] at hthrows
  cases hthrows

end KirkForge
