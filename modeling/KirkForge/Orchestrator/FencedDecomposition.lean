import KirkForge.Orchestrator.DecompositionRoundTrip
import KirkForge.Theory.JsonStrings

/-!
# Decompositions with fences

Nodes whose text contains two code fences are not read back: `parseDecomposition` takes what stands
between the fences for the decomposition, and no string that it reads there has a fence. A list of
nodes is read back, in dependency order, exactly when there are not two fences in its text
(`parseDecomposition_reads_back`).
-/

namespace KirkForge

variable {nodes : List TaskNode} {n : TaskNode} {cs body : List Char}

theorem plain_fence : ∀ c ∈ fence, Json.Plain c := Text.forall_mem_of_all (by decide)

/-- A string without a fence. -/
def Unfenced (s : String) : Prop := ¬fence <:+: s.toList

instance (s : String) : Decidable (Unfenced s) := inferInstanceAs (Decidable (¬_))

/-- A text without fences, none of whose escapes spells a backtick. -/
abbrev LacksFence (cs : List Char) : Prop := Json.Lacks fence cs

/-! ### What is extracted has no fence -/

theorem lacks_of_part {pattern ds : List Char} (h : Json.Lacks pattern cs) (hpart : ds <:+: cs)
    (hunescaped : Json.Unescaped pattern ds) : Json.Lacks pattern ds :=
  ⟨fun hin => h.absent (hin.trans hpart), hunescaped⟩

theorem lacks_of_front {pattern ds : List Char} (h : Json.Lacks pattern cs) (hfirst : ds <+: cs) :
    Json.Lacks pattern ds := by
  refine lacks_of_part h hfirst.isInfix ?_
  obtain ⟨back, rfl⟩ := hfirst
  exact h.unescaped.left

theorem lacksFence_trim (h : LacksFence cs) : LacksFence (Text.trimEnd (Text.trimStart cs)) := by
  have hstart : Json.Follows cs (Text.trimStart cs) := Json.follows_dropWhile (by decide)
  exact lacks_of_front (hstart.lacks h) (Text.trimEnd_isPrefix _)

/-- A text is cut in front of a bracket only. -/
theorem fromBracket_cases (cs : List Char) :
    fromBracket cs = cs ∨
      ∃ front back, cs = front ++ '[' :: back ∧ fromBracket cs = '[' :: back := by
  have hcut {pattern : List Char} {i : Nat} (h : Text.indexOf ('[' :: pattern) cs = some i) :
      ∃ front back, cs = front ++ '[' :: back ∧ cs.drop i = '[' :: back := by
    obtain ⟨rest, hrest⟩ := Text.prefix_drop_of_indexOf h
    exact ⟨cs.take i, pattern ++ rest, by
      rw [← List.cons_append, hrest, List.take_append_drop], hrest.symm⟩
  unfold fromBracket
  split
  · next h => exact .inr (hcut h)
  · split
    · next h => exact .inr (hcut h)
    · exact .inl rfl

theorem lacksFence_fromBracket (h : LacksFence cs) : LacksFence (fromBracket cs) := by
  rcases fromBracket_cases cs with heq | ⟨front, back, rfl, heq⟩
  · rwa [heq]
  · rw [heq]
    exact lacks_of_part h (List.suffix_append _ _).isInfix h.unescaped.bracket

theorem lacksFence_toBracket (h : LacksFence cs) : LacksFence (toBracket cs) := by
  refine lacks_of_front h ?_
  unfold toBracket
  split
  · exact List.take_prefix _ _
  · split
    · split
      · exact List.take_prefix _ _
      · exact List.prefix_rfl
    · exact List.prefix_rfl

/-- What stands between two fences of a text without an escaped backtick. -/
theorem lacksFence_codeBlock (hcs : Json.Unescaped fence cs) (h : codeBlock cs = some body) :
    LacksFence body := by
  obtain ⟨start, stop, hstart, hstop, rfl⟩ := codeBlock_eq_some h
  refine ⟨Text.not_infix_take_of_indexOf fence_ne_nil hstop, ?_⟩
  obtain ⟨opened, hopened⟩ := Text.prefix_drop_of_indexOf hstart
  have hopen : Json.Unescaped fence opened := by
    rw [← List.take_append_drop start cs, ← hopened, ← List.append_assoc] at hcs
    have hlast : (cs.take start ++ fence).getLast? = some '`' := by
      rw [List.getLast?_append]
      rfl
    exact hcs.right (hlast ▸ by decide)
  have hdrop : cs.drop (start + 3) = opened := by
    rw [← List.drop_drop, ← hopened]
    rfl
  rw [hdrop]
  obtain ⟨skipped, hskipped, hnone⟩ := exists_blockBody opened
  rw [hskipped] at hopen
  have hbody : Json.Unescaped fence (blockBody opened) :=
    (Json.unescaped_append_of_notMem fun hmem => (hnone _ hmem).2 rfl).mp hopen
  rw [← List.take_append_drop stop (blockBody opened)] at hbody
  exact hbody.left

/-! ### Nodes that are read from a text without a fence -/

/-- The strings of a node. -/
def TaskNode.strings (n : TaskNode) : List String :=
  n.id :: n.description :: n.language :: n.verificationHint :: (n.dependsOn ++ n.outputFiles)

theorem unfenced_of_notMem {s : String} (h : ∀ c ∈ s.toList, c ∉ fence) : Unfenced s :=
  Json.not_infix_of_notMem fence_ne_nil h

theorem unfenced_textOr {fallback s : String} {value : Option Json} (hfallback : Unfenced fallback)
    (hvalue : ∀ v, value = some v → v.AllStrings Unfenced) (h : textOr fallback value = some s) :
    Unfenced s := by
  unfold textOr at h
  split at h
  · exact Option.some.inj h ▸ hfallback
  · exact Option.some.inj h ▸ hfallback
  · next v _ => exact Json.not_infix_literal plain_fence fence_ne_nil (hvalue v rfl) h

theorem unfenced_textList {value : Option Json} {list : List String}
    (hvalue : ∀ v, value = some v → v.AllStrings Unfenced) (h : textList value = some list) :
    ∀ s ∈ list, Unfenced s := by
  unfold textList at h
  split at h
  · next items =>
    have hitems := Json.allItemStrings_iff.mp (hvalue _ rfl)
    clear hvalue
    induction items generalizing list with
    | nil =>
      obtain rfl := Option.some.inj h
      exact List.forall_mem_nil _
    | cons j items ih =>
      rw [List.mapM_cons] at h
      obtain ⟨s, hs, h⟩ := Option.bind_eq_some_iff.mp h
      obtain ⟨rest, hrest, h⟩ := Option.bind_eq_some_iff.mp h
      obtain rfl := Option.some.inj h
      obtain ⟨hj, hitems⟩ := List.forall_mem_cons.mp hitems
      exact List.forall_mem_cons.mpr
        ⟨Json.not_infix_literal plain_fence fence_ne_nil hj hs, ih hrest hitems⟩
  · obtain rfl := Option.some.inj h
    exact List.forall_mem_nil _

theorem unfenced_sliceUnits {s : String} (h : Unfenced s) (k : Nat) :
    Unfenced (Text.sliceUnits k s) := by
  rw [Unfenced, Text.sliceUnits, String.toList_ofList]
  rcases Text.takeUnits_cases k s.toList with hfirst | ⟨front, hfirst, heq⟩
  · exact fun hin => h (hin.trans hfirst.isInfix)
  · rw [heq, Text.infix_append_cons (by decide), List.infix_nil, or_iff_left fence_ne_nil]
    exact fun hin => h (hin.trans hfirst.isInfix)

theorem unfenced_taskName (i : Nat) : Unfenced ("task-" ++ toString (i + 1)) := by
  refine unfenced_of_notMem fun c hc => ?_
  rw [String.toList_append, List.mem_append] at hc
  rcases hc with hc | hc
  · have hpart : ∀ c ∈ "task-".toList, c ∉ fence := Text.forall_mem_of_all (by decide)
    exact hpart c hc
  · rintro hfence
    obtain rfl : c = '`' := by simpa [fence] using hfence
    have hdigit := Nat.isDigit_of_mem_toDigits (by decide) (by decide) (Nat.toList_repr ▸ hc)
    exact absurd hdigit (by decide)

theorem unfenced_readTask {t : Json} {i : Nat} {ids : List String} (ht : t.AllStrings Unfenced)
    (h : (readTask i ids t).Gives n) : ∀ s ∈ n.strings, Unfenced s := by
  obtain ⟨-, id, hid, -, _, -, c, -, hfields⟩ := gives_readTask.mp h
  have hget (key : String) : ∀ v, t.get? key = some v → v.AllStrings Unfenced :=
    fun v => Json.allStrings_get? ht
  have hempty : Unfenced "" := by decide
  have hid := unfenced_textOr (unfenced_taskName i) (hget "id") hid
  simp only [taskFields, Option.bind_eq_some_iff, Option.map_eq_some_iff] at hfields
  obtain ⟨s, hs, l, hl, d, hd, o, ho, v, hv, rfl⟩ := hfields
  simp only [TaskNode.strings, List.forall_mem_cons, List.forall_mem_append]
  exact ⟨hid, unfenced_sliceUnits (unfenced_textOr hempty (hget _) hs) 500,
    unfenced_textOr (by decide) (hget _) hl,
    unfenced_sliceUnits (unfenced_textOr hempty (hget _) hv) 200,
    unfenced_textList (hget _) hd,
    fun f hf => unfenced_textList (hget _) ho f (List.mem_of_mem_take hf)⟩

theorem unfenced_readTasks {tasks : List Json} {i : Nat} {ids : List String}
    (htasks : ∀ t ∈ tasks, t.AllStrings Unfenced) (h : (readTasks i ids tasks).Gives nodes) :
    ∀ n ∈ nodes, ∀ s ∈ n.strings, Unfenced s := by
  induction tasks generalizing i ids nodes with
  | nil =>
    obtain rfl := Outcome.gives_pure.mp h
    exact List.forall_mem_nil _
  | cons t tasks ih =>
    simp only [readTasks, Outcome.gives_bind, Outcome.gives_pure] at h
    obtain ⟨node, hnode, rest, hrest, rfl⟩ := h
    obtain ⟨ht, htasks⟩ := List.forall_mem_cons.mp htasks
    exact List.forall_mem_cons.mpr ⟨unfenced_readTask ht hnode, ih htasks hrest⟩

theorem unfenced_withValidLanguage (h : ∀ s ∈ n.strings, Unfenced s) :
    ∀ s ∈ n.withValidLanguage.strings, Unfenced s := by
  rw [TaskNode.withValidLanguage]
  split
  · exact h
  · simp only [TaskNode.strings, List.forall_mem_cons, List.forall_mem_append] at h ⊢
    exact ⟨h.1, h.2.1, by decide, h.2.2.2⟩

variable {syntaxMessage : String → String} {raw : String} {result : DecompositionResult}

/-- The nodes that are read from a text without a fence have none in their strings. -/
theorem unfenced_of_gives (h : (parseDecomposition syntaxMessage raw).Gives result)
    (hraw : LacksFence (extractJson raw).toList) :
    ∀ n ∈ result.tasks, ∀ s ∈ n.strings, Unfenced s := by
  simp only [parseDecomposition, Outcome.gives_bind, Outcome.gives_ofExcept,
    Outcome.gives_ite_throw, Outcome.gives_pure] at h
  obtain ⟨tasks, htasks, -, nodes, hnodes, -, -, -, sorted, hsorted, rfl⟩ := h
  have hstrings := Json.allStrings_read plain_fence fence_ne_nil hraw (parseTasks_eq_ok.mp htasks)
  have hread := unfenced_readTasks (Json.allItemStrings_iff.mp hstrings) hnodes
  intro n hn
  obtain ⟨n', hn', rfl⟩ := List.mem_map.mp ((topologicalSort_ok hsorted).perm.mem_iff.mp hn)
  exact unfenced_withValidLanguage (hread n' hn')

/-! ### The text of the nodes -/

theorem not_infix_stringifyNodes (h : ∀ n ∈ nodes, ∀ s ∈ n.strings, Unfenced s) :
    ¬fence <:+: stringifyNodes nodes := by
  have hlist {l : List String} (hl : ∀ s ∈ l, Unfenced s) :
      Json.AllItemStrings Unfenced (l.map .str) ∧ Json.AllItemKeys Unfenced (l.map .str) := by
    induction l with
    | nil => exact ⟨trivial, trivial⟩
    | cons s l ih =>
      obtain ⟨hs, hl⟩ := List.forall_mem_cons.mp hl
      exact ⟨⟨hs, (ih hl).1⟩, trivial, (ih hl).2⟩
  have hcomplexity (c : EstimatedComplexity) : Unfenced c.text := by cases c <;> decide
  have hnode (n : TaskNode) (hn : ∀ s ∈ n.strings, Unfenced s) :
      n.toJson.AllStrings Unfenced ∧ n.toJson.AllKeys Unfenced := by
    simp only [TaskNode.strings, List.forall_mem_cons, List.forall_mem_append] at hn
    obtain ⟨hid, hdescription, hlanguage, hhint, hdeps, hfiles⟩ := hn
    have hdeps := hlist hdeps
    have hfiles := hlist hfiles
    exact ⟨⟨hid, hdescription, hlanguage, hdeps.1, hcomplexity _, hfiles.1, hhint, trivial⟩,
      by decide, trivial, by decide, trivial, by decide, trivial, by decide, hdeps.2, by decide,
      trivial, by decide, hfiles.2, by decide, trivial, trivial⟩
  have hitems : Json.AllItemStrings Unfenced (nodes.map TaskNode.toJson) ∧
      Json.AllItemKeys Unfenced (nodes.map TaskNode.toJson) := by
    induction nodes with
    | nil => exact ⟨trivial, trivial⟩
    | cons n nodes ih =>
      obtain ⟨hn, h⟩ := List.forall_mem_cons.mp h
      exact ⟨⟨(hnode n hn).1, (ih h).1⟩, (hnode n hn).2, (ih h).2⟩
  exact Json.not_infix_stringify plain_fence fence_ne_nil (.arr _) hitems.1 hitems.2

variable {before after : String}

theorem lacksFence_extractJson (hprose : Prose before after) (hne : nodes ≠ [])
    (h : TwoFences (stringifyNodes nodes)) :
    LacksFence (extractJson (answer before nodes after)).toList := by
  obtain ⟨body, hbody⟩ := codeBlock_of_twoFences h
  have hlacks := lacksFence_codeBlock (Json.unescaped_stringify plain_fence _) hbody
  rw [extractJson, codeBlock_trim_answer hprose hne, hbody, String.toList_ofList]
  exact lacksFence_toBracket (lacksFence_fromBracket (lacksFence_trim hlacks))

theorem tasks_ne_nil (h : (parseDecomposition syntaxMessage raw).Gives result) :
    result.tasks ≠ [] := by
  simp only [parseDecomposition, Outcome.gives_bind, Outcome.gives_ofExcept,
    Outcome.gives_ite_throw, Outcome.gives_pure] at h
  obtain ⟨tasks, -, hcount, nodes, hnodes, -, -, -, sorted, hsorted, rfl⟩ := h
  have hperm := (topologicalSort_ok hsorted).perm
  rintro hnil
  refine hcount ?_
  have hlen : sorted.length = nodes.length := by rw [hperm.length_eq, List.length_map]
  rw [← (gives_readTasks hnodes).1, ← hlen]
  exact congrArg List.length hnil

/-- A list of nodes that is read back from prose is not empty, and its text does not have two
fences. -/
theorem not_twoFences_of_gives (hprose : Prose before after)
    (hresult : (parseDecomposition syntaxMessage (answer before nodes after)).Gives result)
    (horder : DependencyOrder nodes result.tasks) :
    nodes ≠ [] ∧ ¬TwoFences (stringifyNodes nodes) := by
  have hne : nodes ≠ [] := by
    rintro rfl
    exact tasks_ne_nil hresult horder.perm.eq_nil
  refine ⟨hne, fun htwo => ?_⟩
  have htasks := unfenced_of_gives hresult (lacksFence_extractJson hprose hne htwo)
  refine not_infix_stringifyNodes (fun n hn => htasks n (horder.perm.mem_iff.mpr hn)) ?_
  obtain ⟨a, b, c, heq⟩ := htwo
  exact ⟨a, b ++ (fence ++ c), by rw [heq, List.append_assoc]⟩

/-- A list of nodes in prose is read back exactly when it is not empty and its text does not have
two fences. -/
theorem parseDecomposition_reads_back (syntaxMessage : String → String) (nodes : List TaskNode)
    (before after : String) (hvalid : ValidNodes nodes) (hprose : Prose before after) :
    (∃ result, (parseDecomposition syntaxMessage (answer before nodes after)).Gives result ∧
      DependencyOrder nodes result.tasks) ↔
    nodes ≠ [] ∧ ¬TwoFences (stringifyNodes nodes) := by
  constructor
  · rintro ⟨result, hresult, horder⟩
    exact not_twoFences_of_gives hprose hresult horder
  · rintro ⟨hne, hfences⟩
    exact gives_answer syntaxMessage hvalid hprose hne hfences

private def usageHint : String := "The \"usage\" section has an example [1]"

private def documentNode (description : String) : TaskNode where
  id := "document"
  description
  language := "text"
  dependsOn := []
  estimatedComplexity := .simple
  outputFiles := ["README.md"]
  verificationHint := usageHint

private theorem validNodes_document {description : String} (h : Text.units description ≤ 500) :
    ValidNodes [documentNode description] where
  within := List.forall_mem_singleton.mpr
    ⟨h, (by decide : "text" ∈ validLanguages), (by decide : ["README.md"].length ≤ 20),
      (by decide : Text.units usageHint ≤ 200)⟩
  length_le := (by decide : 1 ≤ 24)
  nodup := List.nodup_singleton _
  closed := List.forall_mem_singleton.mpr (List.forall_mem_nil _)
  acyclic := by
    have hnone (dep id : String) : ¬NeededBy [documentNode description] dep id := by
      rintro ⟨n, hn, hdep, -⟩
      obtain rfl := List.mem_singleton.mp hn
      cases hdep
    rintro ⟨id, h⟩
    cases h with
    | single h => exact hnone _ _ h
    | tail _ h => exact hnone _ _ h

theorem parseDecomposition_reads_back_document :
    (∃ result, (parseDecomposition (fun _ => "") (answer "The plan [draft]:\n"
        [documentNode "Write a [usage] section with a ``` fence"] "\nThat is all.")).Gives result ∧
      DependencyOrder [documentNode "Write a [usage] section with a ``` fence"] result.tasks) ↔
    [documentNode "Write a [usage] section with a ``` fence"] ≠ [] ∧
      ¬TwoFences (stringifyNodes [documentNode "Write a [usage] section with a ``` fence"]) :=
  parseDecomposition_reads_back _ _ _ _ (validNodes_document (by decide))
    ⟨by decide, by decide, by decide, by decide⟩

/-- A description that quotes a fenced block. -/
theorem parseDecomposition_fenced_description :
    ¬∀ nodes before after, ValidNodes nodes → Prose before after →
      ∃ result, (parseDecomposition (fun _ => "") (answer before nodes after)).Gives result ∧
        DependencyOrder nodes result.tasks := by
  intro h
  have hprose : Prose "" "" := ⟨by decide, by decide, by decide, by decide⟩
  obtain ⟨result, hresult, horder⟩ := h [documentNode "Show ```make``` in the text"] "" ""
    (validNodes_document (by decide)) hprose
  refine (not_twoFences_of_gives hprose hresult horder).2 ?_
  generalize hcs : stringifyNodes [documentNode "Show ```make``` in the text"] = cs
  refine ⟨cs.take 38, "make".toList, cs.drop 48, ?_⟩
  rw [← hcs]
  decide +kernel

end KirkForge
