import KirkForge.Orchestrator.ParseDecomposition
import KirkForge.Theory.FencedBlock

/-!
# Reading a decomposition back

What `parseDecomposition` makes of a list of nodes that was written as JSON, with prose around it.
The nodes are found where the prose has no bracket pair of its own, and they are read back unless
their text contains two code fences.
-/

/-!
## Code fences

When `codeBlock` finds a fenced block in an answer: exactly when two fences stand in it that do not
overlap. What stands around a text without a fence of its own does not change the block.
-/

namespace KirkForge

open Text (indexOf)

/-- Two fences that do not overlap. -/
def TwoFences (cs : List Char) : Prop := ∃ a b c, cs = a ++ (fence ++ (b ++ (fence ++ c)))

variable {cs front back opened body : List Char} {a : Char}

theorem fence_ne_nil : fence ≠ [] := List.cons_ne_nil _ _

theorem whitespace_notMem_fence {c : Char} (h : Text.isWhitespace c = true) : c ∉ fence := by
  rintro hc
  obtain rfl : c = '`' := by simpa [fence] using hc
  cases h

theorem drop_json (rest : List Char) : ("json".toList ++ rest).drop 4 = rest := rfl

theorem exists_blockBody (opened : List Char) : ∃ skipped, opened = skipped ++ blockBody opened ∧
    ∀ c ∈ skipped, c ∉ fence ∧ c ≠ '\\' := by
  have hspace (l : List Char) : ∀ c ∈ l.takeWhile Text.isWhitespace, c ∉ fence ∧ c ≠ '\\' := by
    intro c hc
    have hwhite := List.mem_takeWhile_imp hc
    exact ⟨whitespace_notMem_fence hwhite, fun heq => by subst heq; cases hwhite⟩
  unfold blockBody
  split
  · next h =>
    obtain ⟨rest, rfl⟩ := h
    refine ⟨"json".toList ++ rest.takeWhile Text.isWhitespace, ?_, ?_⟩
    · rw [drop_json, Text.trimStart, List.append_assoc, List.takeWhile_append_dropWhile]
    · exact List.forall_mem_append.mpr ⟨Text.forall_mem_of_all (by decide), hspace rest⟩
  · exact ⟨opened.takeWhile Text.isWhitespace, List.takeWhile_append_dropWhile.symm, hspace opened⟩

/-- Where a fence follows, the body does not depend on what comes behind it. -/
theorem blockBody_append (h : fence <:+: opened) :
    blockBody (opened ++ back) = blockBody opened ++ back := by
  have hsplit {l : List Char} (hl : fence <:+: l) : ∃ s t, l = s ++ '`' :: t := by
    obtain ⟨s, t, rfl⟩ := hl
    exact ⟨s, '`' :: '`' :: t, by simp [fence]⟩
  have htrim {l : List Char} (hl : fence <:+: l) :
      Text.trimStart (l ++ back) = Text.trimStart l ++ back := by
    obtain ⟨s, t, rfl⟩ := hsplit hl
    have htick : Text.isWhitespace '`' = false := by decide
    rw [List.append_assoc, List.cons_append, Text.trimStart_append_cons htick,
      Text.trimStart_append_cons htick, List.append_assoc, List.cons_append]
  have hjson : "json".toList <+: opened ++ back ↔ "json".toList <+: opened := by
    obtain ⟨s, t, rfl⟩ := hsplit h
    have htick : '`' ∉ "json".toList := by decide
    rw [List.append_assoc, List.cons_append, Text.prefix_append_cons htick,
      Text.prefix_append_cons htick]
  unfold blockBody
  by_cases hstart : "json".toList <+: opened
  · obtain ⟨rest, rfl⟩ := hstart
    have hjsonPart : ∀ c ∈ "json".toList, c ∉ fence := Text.forall_mem_of_all (by decide)
    have hrest : fence <:+: rest := (Text.infix_append_of_notMem fence_ne_nil hjsonPart).mp h
    rw [if_pos (hjson.mpr (List.prefix_append _ _)), if_pos (List.prefix_append _ _),
      List.append_assoc, drop_json, drop_json]
    exact htrim hrest
  · rw [if_neg (mt hjson.mp hstart), if_neg hstart]
    exact htrim h

/-! ### Blocks -/

theorem skips_blockBody : Fenced.Skips fence blockBody where
  drops opened := by
    obtain ⟨skipped, hopened, hskipped⟩ := exists_blockBody opened
    exact ⟨skipped, hopened, fun c hc => (hskipped c hc).1⟩
  append _ _ := blockBody_append

theorem codeBlock_eq_some (h : codeBlock cs = some body) : ∃ start stop,
    indexOf fence cs = some start ∧ indexOf fence (blockBody (cs.drop (start + 3))) = some stop ∧
      body = (blockBody (cs.drop (start + 3))).take stop := Fenced.block_eq_some h

/-- A block that is found is found in front of anything that is appended. -/
theorem codeBlock_append_right (h : codeBlock cs = some body) :
    codeBlock (cs ++ back) = some body :=
  Fenced.block_append_right fence_ne_nil skips_blockBody h

/-- A block is not looked for in a front without a fence. -/
theorem codeBlock_append_left (hfront : ¬fence <:+: front) (ha : a ∉ fence) :
    codeBlock (front ++ a :: cs) = codeBlock (a :: cs) := Fenced.block_append_left hfront ha

theorem codeBlock_of_twoFences (h : TwoFences cs) : ∃ body, codeBlock cs = some body :=
  Fenced.block_of_twice fence_ne_nil skips_blockBody h

theorem codeBlock_eq_none_iff : codeBlock cs = none ↔ ¬TwoFences cs :=
  Fenced.block_eq_none_iff fence_ne_nil skips_blockBody

theorem TwoFences.append (h : TwoFences cs) (back : List Char) : TwoFences (cs ++ back) :=
  Fenced.Twice.append h back

/-- Neither fence begins in a part that has none and is set off. -/
theorem TwoFences.of_append (ha : a ∉ fence) (hback : ¬fence <:+: back)
    (h : TwoFences (cs ++ a :: back)) : TwoFences cs := Fenced.Twice.of_append ha hback h

end KirkForge

/-! ## Round trips -/

namespace KirkForge

open Text (indexOf lastIndexOf)

/-- The node as `JSON.stringify` writes it. -/
def TaskNode.toJson (n : TaskNode) : Json := .obj [
  ("id", .str n.id),
  ("description", .str n.description),
  ("language", .str n.language),
  ("dependsOn", .arr (n.dependsOn.map .str)),
  ("estimatedComplexity", .str n.estimatedComplexity.text),
  ("outputFiles", .arr (n.outputFiles.map .str)),
  ("verificationHint", .str n.verificationHint)]

/-- `JSON.stringify(nodes)` -/
def stringifyNodes (nodes : List TaskNode) : List Char :=
  JsValue.stringify (.arr (nodes.map TaskNode.toJson))

/-- The fields of the node are within the limits of the parser. -/
structure TaskNode.Within (n : TaskNode) : Prop where
  description : Text.units n.description ≤ 500
  language : n.language ∈ validLanguages
  outputFiles : n.outputFiles.length ≤ 20
  verificationHint : Text.units n.verificationHint ≤ 200

/-- A decomposition that a model may be asked for. -/
structure ValidNodes (nodes : List TaskNode) : Prop where
  within : ∀ n ∈ nodes, n.Within
  length_le : nodes.length ≤ 24
  nodup : (nodes.map (·.id)).Nodup
  closed : ∀ n ∈ nodes, ∀ dep ∈ n.dependsOn, dep ∈ nodes.map (·.id)
  acyclic : ¬∃ id, Relation.TransGen (NeededBy nodes) id id

variable {nodes : List TaskNode} {n : TaskNode} {i : Nat} {ids : List String}

/-! ### Nodes are read back -/

theorem complexityOf_text (c : EstimatedComplexity) : complexityOf c.text = some c := by
  cases c <;> decide

theorem textList_map_str (l : List String) : textList (some (.arr (l.map .str))) = some l := by
  rw [textList]
  induction l with
  | nil => rfl
  | cons s l ih =>
    have hliteral : Json.literal (.str s) = some s := rfl
    rw [List.map_cons, List.mapM_cons, hliteral, ih]
    rfl

theorem taskFields_toJson (h : n.Within) :
    taskFields n.toJson n.id n.estimatedComplexity = some n := by
  have hdescription : n.toJson.get? "description" = some (.str n.description) := rfl
  have hlanguage : n.toJson.get? "language" = some (.str n.language) := rfl
  have hdependsOn : n.toJson.get? "dependsOn" = some (.arr (n.dependsOn.map .str)) := rfl
  have houtputFiles : n.toJson.get? "outputFiles" = some (.arr (n.outputFiles.map .str)) := rfl
  have hhint : n.toJson.get? "verificationHint" = some (.str n.verificationHint) := rfl
  have htext (fallback s : String) : textOr fallback (some (.str s)) = some s := rfl
  rw [taskFields, hdescription, hlanguage, hdependsOn, houtputFiles, hhint, htext, htext, htext,
    textList_map_str, textList_map_str]
  simp only [Option.bind_some, Option.map_some, Text.sliceUnits_of_le h.description,
    Text.sliceUnits_of_le h.verificationHint, List.take_of_length_le h.outputFiles]

theorem readTask_toJson (h : n.Within) (hid : n.id ∉ ids) : (readTask i ids n.toJson).Gives n :=
  gives_readTask.mpr ⟨nofun, n.id, rfl, hid, n.estimatedComplexity.text, rfl,
    n.estimatedComplexity, complexityOf_text _, taskFields_toJson h⟩

theorem readTasks_toJson (hwithin : ∀ n ∈ nodes, n.Within) (hnodup : (nodes.map (·.id)).Nodup)
    (hids : ∀ n ∈ nodes, n.id ∉ ids) :
    (readTasks i ids (nodes.map TaskNode.toJson)).Gives nodes := by
  induction nodes generalizing i ids with
  | nil => exact Outcome.gives_pure.mpr rfl
  | cons n nodes ih =>
    obtain ⟨hn, hwithin⟩ := List.forall_mem_cons.mp hwithin
    obtain ⟨hid, hids⟩ := List.forall_mem_cons.mp hids
    rw [List.map_cons, List.nodup_cons] at hnodup
    have hrest : ∀ m ∈ nodes, m.id ∉ ids ++ [n.id] := by
      intro m hm hmem
      rcases List.mem_append.mp hmem with hmem | hmem
      · exact hids m hm hmem
      · exact hnodup.1 (List.mem_singleton.mp hmem ▸ List.mem_map_of_mem hm)
    simp only [List.map_cons, readTasks, Outcome.gives_bind, Outcome.gives_pure]
    exact ⟨n, readTask_toJson hn hid, nodes, ih hwithin hnodup.2 hrest, rfl⟩

theorem validateDependencies_of_closed
    (hclosed : ∀ n ∈ nodes, ∀ dep ∈ n.dependsOn, dep ∈ ids)
    (hself : ∀ n ∈ nodes, n.id ∉ n.dependsOn) : validateDependencies ids nodes = .ok () := by
  induction nodes with
  | nil => rfl
  | cons n nodes ih =>
    obtain ⟨hn, hclosed⟩ := List.forall_mem_cons.mp hclosed
    obtain ⟨hne, hself⟩ := List.forall_mem_cons.mp hself
    have hknown : n.dependsOn.find? (· ∉ ids) = none := by
      refine List.find?_eq_none.mpr fun dep hdep => ?_
      simpa using hn dep hdep
    rw [validateDependencies, if_neg hne, hknown]
    exact ih hclosed hself

theorem ValidNodes.not_self (h : ValidNodes nodes) : ∀ n ∈ nodes, n.id ∉ n.dependsOn :=
  fun n hn hdep => h.acyclic ⟨n.id, .single ⟨n, hn, hdep, rfl⟩⟩

/-! ### The text is found -/

theorem all_toJson (n : TaskNode) : n.toJson.All Json.IsFinite Json.Ordered := by
  have hstrings (l : List String) : Json.AllItems Json.IsFinite Json.Ordered (l.map .str) := by
    refine Json.allItems_iff.mpr fun j hj => ?_
    obtain ⟨s, -, rfl⟩ := List.mem_map.mp hj
    trivial
  have hkeys : Json.Ordered ["id", "description", "language", "dependsOn", "estimatedComplexity",
      "outputFiles", "verificationHint"] := by decide
  exact ⟨hkeys, trivial, trivial, trivial, hstrings _, trivial, hstrings _, trivial, trivial⟩

theorem read_stringifyNodes (nodes : List TaskNode) :
    Json.read (String.ofList (stringifyNodes nodes)) =
      some (.arr (nodes.map TaskNode.toJson)) := by
  refine Json.read_stringify (Json.allItems_iff.mpr fun j hj => ?_)
  obtain ⟨n, -, rfl⟩ := List.mem_map.mp hj
  exact all_toJson n

/-- The text of a list that is not empty. -/
theorem exists_stringifyNodes (hne : nodes ≠ []) :
    ∃ inner, stringifyNodes nodes = '[' :: '{' :: inner ++ ['}', ']'] := by
  have hjoin : ∀ texts : List (List Char), texts ≠ [] →
      (∀ t ∈ texts, ∃ inner, t = '{' :: inner ++ ['}']) →
      ∃ inner, Delimited.commaJoin texts = '{' :: inner ++ ['}'] := by
    intro texts
    induction texts with
    | nil => exact fun h => absurd rfl h
    | cons t texts ih =>
      intro _ hall
      obtain ⟨⟨inner, ht⟩, hall⟩ := List.forall_mem_cons.mp hall
      cases texts with
      | nil => exact ⟨inner, by simp [Delimited.commaJoin, ht]⟩
      | cons u texts =>
        obtain ⟨rest, hrest⟩ := ih (List.cons_ne_nil u texts) hall
        refine ⟨inner ++ '}' :: ',' :: '{' :: rest, ?_⟩
        rw [Delimited.commaJoin_cons_cons, hrest, ht]
        simp
  have hitems (nodes : List TaskNode) : ∀ t ∈ JsValue.stringifyItems (nodes.map TaskNode.toJson),
      ∃ inner, t = '{' :: inner ++ ['}'] := by
    induction nodes with
    | nil => exact List.forall_mem_nil _
    | cons n nodes ih => exact List.forall_mem_cons.mpr ⟨⟨_, rfl⟩, ih⟩
  have hcons : JsValue.stringifyItems (nodes.map TaskNode.toJson) ≠ [] := by
    cases nodes with
    | nil => exact absurd rfl hne
    | cons n nodes => exact List.cons_ne_nil _ _
  obtain ⟨inner, hinner⟩ := hjoin _ hcons (hitems nodes)
  refine ⟨inner, ?_⟩
  rw [stringifyNodes, JsValue.stringify, hinner]
  simp

variable {front back inner : List Char}

theorem fromBracket_append (hfront : ¬['[', '{'] <:+: front) :
    fromBracket (front ++ '[' :: '{' :: inner) = '[' :: '{' :: inner := by
  have hnone : ∀ i < front.length, ¬['[', '{'] <+: front.drop i ++ '[' :: '{' :: inner :=
    Text.not_pair_prefix (by decide) hfront
  have hhere : indexOf ['[', '{'] ('[' :: '{' :: inner) = some 0 :=
    if_pos (List.prefix_append ['[', '{'] inner)
  have hindex : indexOf ['[', '{'] (front ++ '[' :: '{' :: inner) = some front.length := by
    rw [Text.indexOf_append hnone, hhere, Option.map_some, Nat.add_zero]
  rw [fromBracket, hindex]
  cases front with
  | nil => rfl
  | cons c front => exact List.drop_left' rfl

theorem toBracket_append (hback : ¬['}', ']'] <:+: back) :
    toBracket (('[' :: '{' :: inner ++ ['}', ']']) ++ back) =
      '[' :: '{' :: inner ++ ['}', ']'] := by
  have hlater : ¬['}', ']'] <:+: ']' :: back := by
    rw [List.infix_cons_iff]
    rintro (h | h)
    · exact absurd (List.cons_prefix_cons.mp h).1 (by decide)
    · exact hback h
  have hindex : lastIndexOf ['}', ']'] (('[' :: '{' :: inner ++ ['}', ']']) ++ back) =
      some ('[' :: '{' :: inner).length := by
    rw [List.append_assoc]
    exact Text.lastIndexOf_append (List.prefix_append ['}', ']'] back) hlater
  rw [toBracket, hindex]
  exact List.take_left' (by simp)

/-- The prose around the list of nodes: the first bracket pair is the list's own, and so is the
last one. -/
structure Prose (front back : String) : Prop where
  noOpening : ¬['[', '{'] <:+: front.toList
  noClosing : ¬['}', ']'] <:+: back.toList
  noFence : ¬fence <:+: front.toList ∧ ¬fence <:+: back.toList

/-- An answer that has the list of nodes in it. -/
def answer (front : String) (nodes : List TaskNode) (back : String) : String :=
  front ++ String.ofList (stringifyNodes nodes) ++ back

variable {before after : String}

theorem toList_trim_answer (hne : nodes ≠ []) : (Text.trim (answer before nodes after)).toList =
    Text.trimStart before.toList ++ (stringifyNodes nodes ++ Text.trimEnd after.toList) := by
  obtain ⟨inner, htext⟩ := exists_stringifyNodes hne
  rw [Text.trim, String.toList_ofList, answer, String.toList_append, String.toList_append,
    String.toList_ofList, List.append_assoc, htext]
  have hlast : ('[' :: '{' :: inner ++ ['}', ']']).getLast? = some ']' := by
    rw [List.getLast?_append]
    rfl
  exact Text.trim_around rfl hlast (by decide) (by decide)

theorem Prose.trimmed (h : Prose before after) :
    (¬['[', '{'] <:+: Text.trimStart before.toList ∧ ¬fence <:+: Text.trimStart before.toList) ∧
    ¬['}', ']'] <:+: Text.trimEnd after.toList ∧ ¬fence <:+: Text.trimEnd after.toList :=
  have hfront := (Text.trimStart_suffix before.toList).isInfix
  have hback := (Text.trimEnd_isPrefix after.toList).isInfix
  ⟨⟨fun hin => h.noOpening (hin.trans hfront), fun hin => h.noFence.1 (hin.trans hfront)⟩,
    fun hin => h.noClosing (hin.trans hback), fun hin => h.noFence.2 (hin.trans hback)⟩

/-- The prose does not add a fenced block to the text, and takes none away. -/
theorem codeBlock_trim_answer (hprose : Prose before after) (hne : nodes ≠ []) :
    codeBlock (Text.trim (answer before nodes after)).toList =
      codeBlock (stringifyNodes nodes) := by
  obtain ⟨⟨-, hfront⟩, -, hback⟩ := hprose.trimmed
  rw [toList_trim_answer hne]
  obtain ⟨inner, htext⟩ := exists_stringifyNodes hne
  generalize stringifyNodes nodes = text at htext
  have hfronts : codeBlock (Text.trimStart before.toList ++ (text ++ Text.trimEnd after.toList)) =
      codeBlock (text ++ Text.trimEnd after.toList) := by
    rw [htext]
    exact codeBlock_append_left hfront (by decide)
  rw [hfronts]
  cases hblock : codeBlock text with
  | some body => exact codeBlock_append_right hblock
  | none =>
    rw [codeBlock_eq_none_iff] at hblock ⊢
    intro htwo
    have hend : text ++ Text.trimEnd after.toList =
        ('[' :: '{' :: inner ++ ['}']) ++ ']' :: Text.trimEnd after.toList := by
      rw [htext]
      simp
    rw [hend] at htwo
    refine hblock ?_
    have hcut := (htwo.of_append (by decide) hback).append [']']
    rw [List.append_assoc] at hcut
    rw [htext]
    exact hcut

theorem extractJson_answer (hprose : Prose before after) (hne : nodes ≠ [])
    (hfences : ¬TwoFences (stringifyNodes nodes)) :
    extractJson (answer before nodes after) = String.ofList (stringifyNodes nodes) := by
  obtain ⟨⟨hopening, -⟩, hclosing, -⟩ := hprose.trimmed
  rw [extractJson, codeBlock_trim_answer hprose hne, codeBlock_eq_none_iff.mpr hfences]
  dsimp only
  rw [toList_trim_answer hne]
  obtain ⟨inner, htext⟩ := exists_stringifyNodes hne
  rw [htext, List.cons_append, List.cons_append, List.cons_append, List.cons_append,
    fromBracket_append hopening]
  exact congrArg String.ofList (toBracket_append hclosing)

/-! ### The nodes are returned -/

/-- Nodes whose text has no two fences are read back, in dependency order. -/
theorem gives_answer (syntaxMessage : String → String) (hvalid : ValidNodes nodes)
    (hprose : Prose before after) (hne : nodes ≠ [])
    (hfences : ¬TwoFences (stringifyNodes nodes)) :
    ∃ result, (parseDecomposition syntaxMessage (answer before nodes after)).Gives result ∧
      DependencyOrder nodes result.tasks := by
  have hparse : parseTasks syntaxMessage (answer before nodes after) =
      .ok (nodes.map TaskNode.toJson) := by
    rw [parseTasks_eq_ok, extractJson_answer hprose hne hfences, read_stringifyNodes]
  obtain ⟨sorted, hsorted⟩ :=
    (topologicalSort_ok_iff_acyclic hvalid.nodup hvalid.closed).1.mpr hvalid.acyclic
  have hlanguages : nodes.map TaskNode.withValidLanguage = nodes :=
    (List.map_congr_left fun n hn => if_pos (hvalid.within n hn).language).trans (List.map_id' _)
  refine ⟨decompositionOf sorted, ?_, topologicalSort_ok hsorted⟩
  simp only [parseDecomposition, Outcome.gives_bind, Outcome.gives_ofExcept,
    Outcome.gives_ite_throw, Outcome.gives_pure]
  refine ⟨_, hparse, by simpa using hne, nodes,
    readTasks_toJson hvalid.within hvalid.nodup fun _ _ => List.not_mem_nil, (),
    validateDependencies_of_closed hvalid.closed hvalid.not_self, Nat.not_lt.mpr hvalid.length_le,
    sorted, ?_, rfl⟩
  rw [hlanguages]
  exact hsorted

end KirkForge
