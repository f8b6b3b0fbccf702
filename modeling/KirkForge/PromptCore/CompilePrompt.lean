import KirkForge.Orchestrator.TaskProfile
import KirkForge.Orchestrator.Types
import KirkForge.Theory.Substitution
import KirkForge.Theory.Text

/-!
# Prompts from templates

`compilePrompt` (`prompt-core/src/index.ts`) substitutes the variables of a task brief one after the
other, and sets three of them in the object of its caller. The values appear as they are if each
replacement meets the placeholders of the template and nothing else and no value in use has a dollar
sequence.
-/

namespace KirkForge

open Substitution (Inert Harmless Variables placeholder pieces fill)

inductive PromptFormat
  | hardPrompt | schemaContract | artifact | taskDecompose
  deriving DecidableEq, Repr

/-- What `compilePrompt` reads of a template. -/
structure PromptTemplate where
  format : PromptFormat
  systemPrompt : String
  userPromptTemplate : String

/-- A brief; `vars` are its variables. -/
@[ext] structure TaskBrief where
  description : String
  vars : Option (OrderedMap String String) := none

@[ext] structure CompiledPrompt where
  format : PromptFormat
  systemPrompt : String
  userPrompt : String

/-- `text.replaceAll(...)` for one variable after the other. -/
def replaceVariables (vars : OrderedMap String String) (text : String) : String :=
  vars.entries.foldl (fun text entry => String.ofList
    (Substitution.replaceAll (placeholder entry.1.toList) entry.2.toList text.toList)) text

/-- The variables with the task and the two rules. -/
def setVariables (description : String) (vars : OrderedMap String String) :
    OrderedMap String String :=
  let vars := vars.set "task" description
  let vars := vars.set "emissionRules" ((vars.get? "emissionRules").getD "")
  vars.set "forbiddenRules" ((vars.get? "forbiddenRules").getD "")

/-- The prompt, and the brief as it is afterwards: the variables are those of the caller, if there
are any. -/
def compilePrompt (template : PromptTemplate) (brief : TaskBrief) : CompiledPrompt × TaskBrief :=
  let vars := setVariables brief.description (brief.vars.getD ∅)
  ({ format := template.format
     systemPrompt := replaceVariables vars template.systemPrompt
     userPrompt := replaceVariables vars template.userPromptTemplate },
    { brief with vars := brief.vars.map fun _ => vars })

/-! ### Briefs of tasks -/

def TaskLanguage.defaultFile : TaskLanguage → String
  | typescript => "output.ts"
  | javascript => "output.js"
  | python => "solution.py"
  | shell => "solution.sh"
  | cpp => "solution.cpp"
  | c => "solution.c"
  | rust => "solution.rs"
  | go => "main.go"
  | sql => "query.sql"
  | text => "answer.txt"

def TaskLanguage.promptHint : TaskLanguage → String
  | typescript => "Emit TypeScript files. Prefer .ts paths."
  | javascript => "Emit JavaScript files. Prefer .js paths."
  | python => "Emit Python files. Prefer .py paths."
  | shell => "Emit POSIX shell files. Prefer .sh paths. Install shellcheck for best results."
  | cpp => "Emit C++ files. Prefer .cpp paths."
  | c => "Emit C files. Prefer .c paths."
  | rust => "Emit Rust files. Prefer .rs paths."
  | go => "Emit Go files. Prefer .go paths."
  | sql => "Emit SQL files. Prefer .sql paths."
  | text => "Emit .txt or .md. Other extensions require explicit --language or --validator."

/-- An object literal with these members. -/
def objectOf (members : List (String × String)) : OrderedMap String String :=
  members.foldl (fun object member => object.set member.1 member.2) ∅

def makeBrief (task : TaskInput) : TaskBrief :=
  let profile := detectTaskProfile task.description
  let forbiddenList :=
    if profile.forbiddenExtensions.length > 0 then
      "\nForbidden file types: " ++ Text.join ", " profile.forbiddenExtensions ++ "."
    else ""
  let emissionRules :=
    if profile.allowedExtensions.length > 0 then
      "\nAllowed file extensions for " ++ profile.language.name ++ ": " ++
        Text.join ", " profile.allowedExtensions ++ "."
    else ""
  let context := task.context.getD ""
  let files := task.files.getD []
  let contextSection := if context ≠ "" then "\nContext: " ++ context else ""
  let filesSection := if files ≠ [] then "\nTarget files: " ++ Text.join ", " files else ""
  { description := task.description ++ contextSection ++ filesSection
    vars := some (objectOf [("files", Text.join ", " files), ("language", profile.language.name),
      ("defaultFile", profile.language.defaultFile), ("languageHint", profile.language.promptHint),
      ("checkCommand", profile.checkCommand), ("emissionRules", emissionRules),
      ("forbiddenRules", forbiddenList), ("context", context)]) }

/-! ### Verbatim prompts -/

/-- The variables and their values, in the order in which they are substituted. -/
def TaskBrief.substituted (brief : TaskBrief) : Variables :=
  (setVariables brief.description (brief.vars.getD ∅)).entries.map fun entry =>
    (entry.1.toList, entry.2.toList)

/-- The parts of a template whose placeholders name variables of the brief. -/
def TaskBrief.piecesOf (brief : TaskBrief) (text : String) : List Substitution.Piece :=
  pieces (brief.substituted.map Prod.fst) text.toList

/-- Each placeholder of the template that names a variable is filled with the value, all at once,
and the caller's brief is as it was. -/
structure Verbatim (template : PromptTemplate) (brief : TaskBrief) : Prop where
  system : (compilePrompt template brief).1.systemPrompt =
    String.ofList (fill brief.substituted (brief.piecesOf template.systemPrompt))
  user : (compilePrompt template brief).1.userPrompt =
    String.ofList (fill brief.substituted (brief.piecesOf template.userPromptTemplate))
  unmodified : (compilePrompt template brief).2 = brief

/-- The variables have the task and the rules already, or there are none. -/
def TaskBrief.Complete (brief : TaskBrief) : Prop :=
  ∀ vars, brief.vars = some vars → vars.get? "task" = some brief.description ∧
    (vars.get? "emissionRules").isSome ∧ (vars.get? "forbiddenRules").isSome

theorem replaceVariables_eq (vars : OrderedMap String String) (text : String) :
    (replaceVariables vars text).toList =
      (vars.entries.map fun entry => (entry.1.toList, entry.2.toList)).foldl
        (fun text entry => Substitution.replaceAll (placeholder entry.1) entry.2 text)
        text.toList := by
  rw [replaceVariables]
  generalize vars.entries = entries
  induction entries generalizing text with
  | nil => rfl
  | cons entry entries ih =>
    rw [List.foldl_cons, List.map_cons, List.foldl_cons, ih, String.toList_ofList]

theorem TaskBrief.nodup_substituted (brief : TaskBrief) :
    (brief.substituted.map Prod.fst).Nodup := by
  have hnodup := (setVariables brief.description (brief.vars.getD ∅)).nodup
  have hnames : brief.substituted.map Prod.fst =
      ((setVariables brief.description (brief.vars.getD ∅)).entries.map Prod.fst).map
        String.toList := by
    rw [substituted, List.map_map, List.map_map]
    rfl
  rw [hnames]
  exact hnodup.map fun _ _ h => String.toList_inj.mp h

/-- A text is filled if the replacements in it are harmless. -/
theorem replaceVariables_of_harmless {brief : TaskBrief} {text : String}
    (h : Harmless brief.substituted (brief.piecesOf text)) :
    replaceVariables (setVariables brief.description (brief.vars.getD ∅)) text =
      String.ofList (fill brief.substituted (brief.piecesOf text)) := by
  rw [← String.toList_inj, String.toList_ofList, replaceVariables_eq]
  exact Substitution.foldl_replaceAll brief.nodup_substituted h

/-- Setting a value that is there already changes nothing. -/
theorem set_eq_self {m : OrderedMap String String} {k v : String} (h : m.get? k = some v) :
    m.set k v = m := by
  have hentries := OrderedMap.entries_set h v
  have hmap : m.entries.map (fun e => if e.1 = k then (k, v) else e) = m.entries := by
    refine (List.map_congr_left fun e he => ?_).trans (List.map_id _)
    split
    · next hk =>
      obtain ⟨k', v'⟩ := e
      obtain rfl : k' = k := hk
      have hv := OrderedMap.mem_entries_iff.mp he
      rw [h] at hv
      exact congrArg (Prod.mk k') (Option.some.inj hv)
    · rfl
  cases hset : m.set k v
  cases m
  rw [hset] at hentries
  rw [OrderedMap.mk.injEq]
  exact hentries.trans hmap

/-- The brief of the caller is as it was exactly if its variables have the task and the rules. -/
theorem unmodified_iff (template : PromptTemplate) (brief : TaskBrief) :
    (compilePrompt template brief).2 = brief ↔ brief.Complete := by
  obtain ⟨description, vars⟩ := brief
  cases vars with
  | none => exact iff_of_true rfl nofun
  | some vars =>
    have hmodified : (compilePrompt template ⟨description, some vars⟩).2 =
        ⟨description, some (setVariables description vars)⟩ := rfl
    rw [hmodified, TaskBrief.mk.injEq, Option.some.injEq]
    constructor
    · rintro ⟨-, hset⟩ vars' hvars
      cases hvars
      rw [← hset, setVariables]
      refine ⟨?_, ?_, ?_⟩
      · rw [OrderedMap.get?_set_of_ne _ (by decide), OrderedMap.get?_set_of_ne _ (by decide),
          OrderedMap.get?_set_self]
      · rw [OrderedMap.get?_set_of_ne _ (by decide), OrderedMap.get?_set_self]
        rfl
      · rw [OrderedMap.get?_set_self]
        rfl
    · intro hcomplete
      obtain ⟨htask, hemission, hforbidden⟩ := hcomplete vars rfl
      obtain ⟨emission, hemission⟩ := Option.isSome_iff_exists.mp hemission
      obtain ⟨forbidden, hforbidden⟩ := Option.isSome_iff_exists.mp hforbidden
      change vars.get? "task" = some description at htask
      rw [setVariables, set_eq_self htask, hemission, Option.getD_some, set_eq_self hemission,
        hforbidden, Option.getD_some, set_eq_self hforbidden]
      exact ⟨rfl, rfl⟩

/-- A prompt is verbatim if the replacements in both templates are harmless and the variables have
the task and the rules already. -/
theorem compilePrompt_verbatim (template : PromptTemplate) (brief : TaskBrief) :
    (Harmless brief.substituted (brief.piecesOf template.systemPrompt) →
      Harmless brief.substituted (brief.piecesOf template.userPromptTemplate) →
      brief.Complete → Verbatim template brief) ∧
    ((compilePrompt template brief).2 = brief ↔ brief.Complete) :=
  ⟨fun hsystem huser hcomplete => ⟨replaceVariables_of_harmless hsystem,
    replaceVariables_of_harmless huser, (unmodified_iff template brief).mpr hcomplete⟩,
    unmodified_iff template brief⟩

/-- What is before a placeholder may happen to be what the value says. -/
example : (compilePrompt
    { format := .hardPrompt, systemPrompt := "", userPromptTemplate := "$`{{task}}" }
    { description := "$`" }).1.userPrompt = "$`$`" := by
  decide +kernel

theorem prompt_of_plain_task : Verbatim
    { format := .hardPrompt, systemPrompt := "{{rules}}", userPromptTemplate := "Do {{task}}: {{x}}" }
    { description := "a {{test}} for $1" } :=
  (compilePrompt_verbatim _ _).1 (by decide +kernel) (by decide +kernel) nofun

/-- A description with `$&` has the placeholder for it in the prompt, and a file name that looks
like a placeholder is filled in as well. The brief has a task afterwards. -/
theorem prompt_changes_values :
    (compilePrompt
      { format := .hardPrompt, systemPrompt := "", userPromptTemplate := "{{task}}" }
      (makeBrief { description := "print $$ and $&" })).1.userPrompt = "print $ and {{task}}" ∧
    (compilePrompt
      { format := .hardPrompt, systemPrompt := "", userPromptTemplate := "{{files}}" }
      (makeBrief { description := "x", files := some ["{{task}}"] })).1.userPrompt =
        "x\nTarget files: {{task}}" ∧
    ¬∀ template brief, Verbatim template brief := by
  refine ⟨by decide +kernel, by decide +kernel, fun h => ?_⟩
  have huser := (h { format := .hardPrompt, systemPrompt := "", userPromptTemplate := "{{task}}" }
    (makeBrief { description := "print $$ and $&" })).user
  revert huser
  decide +kernel

/-- The brief of a task is always modified. -/
theorem makeBrief_modified (template : PromptTemplate) (task : TaskInput) :
    (compilePrompt template (makeBrief task)).2 ≠ makeBrief task := by
  rw [Ne, unmodified_iff]
  intro hcomplete
  have htask := (hcomplete _ rfl).1
  have hnone (a b c d e f g h : String) : (objectOf [("files", a), ("language", b),
      ("defaultFile", c), ("languageHint", d), ("checkCommand", e), ("emissionRules", f),
      ("forbiddenRules", g), ("context", h)]).get? "task" = none := rfl
  rw [hnone] at htask
  cases htask

end KirkForge
