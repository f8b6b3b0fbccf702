import KirkForge.Orchestrator.LintVerdict
import KirkForge.Orchestrator.PathAgreement

/-!
# Verifying a workspace

`verifyWorkspace` (`packages/plugin/src/index.ts`), which runs the verifiers on an event bus and a
reducer of its own. Where the language requires the lint verifier no loss of events can turn a
finding into a pass, since there is no event of an earlier verification that could stand in for a
lost one (`verified_workspace`).
-/

namespace KirkForge

open Lint AbsPath

structure VerifyWorkspaceInput where
  workspace : String
  files : Option (List String) := none
  language : Option String := none
  description : Option String := none
  taskId : Option String := none

/-- What the call meets with: the directory as the lint engine reads it, and the events that the bus
delivers. -/
structure WorkspaceHost where
  existsSync : String → Bool
  lint : LintHost
  rules : LintTool → List LintRule
  defaultTaskId : String
  verifiers : VerifierEnv

def normalizeLanguage.valid : List TaskLanguage :=
  [.typescript, .javascript, .python, .shell, .cpp, .c, .rust, .go, .sql, .text]

def normalizeLanguage (language : String) : Except String TaskLanguage :=
  if language = "" then .ok .typescript
  else
    match normalizeLanguage.valid.find? fun l => l.name = Text.toLowerCase language with
    | some l => .ok l
    | none => .error ("Unknown language: \"" ++ language ++ "\". Valid: " ++
        Text.join ", " (normalizeLanguage.valid.map TaskLanguage.name))

namespace VerifyWorkspaceInput

variable (input : VerifyWorkspaceInput)

def profile : Except String TaskProfile :=
  match input.language with
  | none | some "" => .ok (detectTaskProfile (input.description.getD "verify workspace"))
  | some language =>
    match normalizeLanguage language with
    | .ok l => .ok (profileForLanguage l)
    | .error message => .error ("Unsupported language: " ++ language ++ ". " ++ message)

/-- The files after the path check, if it rejects none. -/
def sanitized : Except String (Option (List String)) :=
  match input.files with
  | none => .ok none
  | some files =>
    let sanitized := files.filterMap (safeRelativePath input.workspace · false)
    if sanitized.length < files.length then
      .error ("verifyWorkspace: " ++ toString (files.length - sanitized.length) ++
        " file(s) rejected by path safety check (outside workspace or unsafe)")
    else .ok (some sanitized)

/-- The lint engines in the workspace. -/
def setup (host : WorkspaceHost) : LintSetup where
  cwd := root.resolve input.workspace
  host := host.lint
  rules := host.rules

end VerifyWorkspaceInput

def verifyWorkspace (host : WorkspaceHost) (input : VerifyWorkspaceInput) :
    Except String ReducedStatePacket :=
  if host.existsSync input.workspace = false then
    .error ("Workspace directory does not exist: " ++ input.workspace)
  else
    let taskId := input.taskId.getD host.defaultTaskId
    match input.profile with
    | .error message => .error message
    | .ok profile =>
      match input.sanitized with
      | .error message => .error message
      | .ok files =>
        let events := host.verifiers.emitted taskId files (some profile.language) none
        .ok ((StateReducer.empty.recordAll events).reduce taskId 0 (some profile.verifierPolicy) none
          host.verifiers.now)

/-! ### What a packet says -/

variable {host : WorkspaceHost} {input : VerifyWorkspaceInput} {packet : ReducedStatePacket}

theorem verifyWorkspace_eq_ok (h : verifyWorkspace host input = .ok packet) :
    ∃ profile files, input.profile = .ok profile ∧ input.sanitized = .ok files ∧
      packet = (StateReducer.empty.recordAll (runVerifiers host.verifiers
        (input.taskId.getD host.defaultTaskId) files (some profile.language) none)).reduce
          (input.taskId.getD host.defaultTaskId) 0 (some profile.verifierPolicy) none
            host.verifiers.now := by
  rw [verifyWorkspace] at h
  split at h
  · cases h
  dsimp only at h
  cases hprofile : input.profile with
  | error message => rw [hprofile] at h; cases h
  | ok profile =>
    cases hsanitized : input.sanitized with
    | error message => rw [hprofile, hsanitized] at h; cases h
    | ok files =>
      rw [hprofile, hsanitized] at h
      exact ⟨profile, files, rfl, rfl, (Except.ok.inj h).symm⟩

theorem safeRelativePath_eq_some {f rel : String}
    (habs : Text.startsWith input.workspace "/" = true)
    (h : safeRelativePath input.workspace f false = some rel) :
    let dir := root.resolve input.workspace
    rel = dir.relative (dir.resolve f) ∧ (dir.resolve f).Inside dir ∧ Visible rel := by
  intro dir
  have hblank : Text.trim f ≠ "" := by
    intro hblank
    rw [safeRelativePath, if_pos (.inr hblank)] at h
    cases h
  obtain ⟨hinside, hrel, hvisible⟩ := (safeRelativePath_eq_some_iff hblank).mp h
  rw [resolveFrom_eq habs] at hinside hrel
  exact ⟨hrel, hinside, hvisible rfl⟩

/-- No file was rejected, and what the engine is handed leads to the files that were given. -/
theorem sanitized_eq_ok (habs : Text.startsWith input.workspace "/" = true) {given : List String}
    (hgiven : input.files = some given) {files : Option (List String)}
    (h : input.sanitized = .ok files) :
    let dir := root.resolve input.workspace
    files = some (given.map fun f => dir.relative (dir.resolve f)) ∧
      ∀ f ∈ given, (dir.resolve f).Inside dir ∧ Visible (dir.relative (dir.resolve f)) := by
  intro dir
  rw [VerifyWorkspaceInput.sanitized, hgiven] at h
  dsimp only at h
  split at h
  · cases h
  · next hlength =>
    obtain rfl := Except.ok.inj h
    have hall := List.filterMap_length_eq_length.mp
      (Nat.le_antisymm (List.length_filterMap_le _ _) (Nat.le_of_not_lt hlength))
    have hsome (f : String) (hf : f ∈ given) : ∃ rel,
        safeRelativePath input.workspace f false = some rel ∧
          rel = dir.relative (dir.resolve f) ∧ (dir.resolve f).Inside dir ∧ Visible rel := by
      obtain ⟨rel, hrel⟩ := Option.isSome_iff_exists.mp (hall f hf)
      exact ⟨rel, hrel, safeRelativePath_eq_some habs hrel⟩
    constructor
    · congr 1
      rw [← List.filterMap_eq_map]
      refine List.filterMap_congr fun f hf => ?_
      obtain ⟨rel, hrel, rfl, -⟩ := hsome f hf
      exact hrel
    · intro f hf
      obtain ⟨rel, -, rfl, hinside, hvisible⟩ := hsome f hf
      exact ⟨hinside, hvisible⟩

/-- A required lint verifier that is not heard of fails the task. -/
theorem overall_of_no_lint {env : VerifierEnv} {taskId : String} {files : Option (List String)}
    {language : TaskLanguage} {policy : VerifierPolicy} (hrequired : .lint ∈ policy.required)
    (hnone : recorded (env.emitted taskId files (some language) none) taskId .verifyLint = [])
    (now : String) :
    ((StateReducer.empty.recordAll (runVerifiers env taskId files (some language) none)).reduce
      taskId 0 (some policy) none now).verification.overall = .fail := by
  have H := Represents.empty.recordAll (runVerifiers env taskId files (some language) none)
  refine (overall_eq_fail_iff H 0 policy none now).mpr (.missing hrequired ?_)
  rw [lastStatus, Option.map_eq_none_iff, slotToSignal, lastSignal_eq_none_iff]
  exact hnone

/-- Where the lint verifier is required, or one of its events arrives, the packet is judged by what
the lint engine finds in the files that were given, all of which are inside the workspace. -/
theorem verified_workspace (host : WorkspaceHost) (input : VerifyWorkspaceInput)
    (habs : Text.startsWith input.workspace "/" = true)
    (hpublishes : (input.setup host).Publishes host.verifiers) {packet : ReducedStatePacket}
    (hok : verifyWorkspace host input = .ok packet) :
    let dir := root.resolve input.workspace
    ∃ profile files, input.profile = .ok profile ∧ input.sanitized = .ok files ∧
      (∀ given, input.files = some given →
        files = some (given.map fun f => dir.relative (dir.resolve f)) ∧
          ∀ f ∈ given, (dir.resolve f).Inside dir ∧ Visible (dir.relative (dir.resolve f))) ∧
      (.lint ∈ profile.verifierPolicy.required ∨
          recorded (host.verifiers.emitted (input.taskId.getD host.defaultTaskId) files
            (some profile.language) none) (input.taskId.getD host.defaultTaskId) .verifyLint ≠ [] →
        (input.setup host).Judged files (some profile.language) packet) := by
  intro dir
  obtain ⟨profile, files, hprofile, hsanitized, rfl⟩ := verifyWorkspace_eq_ok hok
  refine ⟨profile, files, hprofile, hsanitized,
    fun given hgiven => sanitized_eq_ok habs hgiven hsanitized, fun h => ?_⟩
  by_cases hdelivered : recorded (host.verifiers.emitted (input.taskId.getD host.defaultTaskId) files
      (some profile.language) none) (input.taskId.getD host.defaultTaskId) .verifyLint = []
  · have hfail := overall_of_no_lint (h.resolve_right (not_not.mpr hdelivered)) hdelivered
      host.verifiers.now
    exact ⟨fun hpass => absurd (hpass.symm.trans hfail) nofun, fun _ _ => hfail⟩
  · exact Represents.empty.judged hpublishes hdelivered ..

def evalInput : VerifyWorkspaceInput where
  workspace := "/work"
  files := some ["src/../a.js"]
  language := some "JavaScript"

/-- A directory with the text of `evalHost` in every file. -/
def evalWorkspace : WorkspaceHost where
  existsSync _ := true
  lint := evalHost
  rules _ := evalEngine.rules
  defaultTaskId := "task"
  verifiers := LintSetup.verifiers ⟨root.resolve "/work", evalHost, fun _ => evalEngine.rules⟩

theorem verified_workspace_eval : ∃ packet, verifyWorkspace evalWorkspace evalInput = .ok packet ∧
    packet.verification.overall = .fail ∧
    (evalInput.setup evalWorkspace).Judged (some ["a.js"]) (some .javascript) packet := by
  have hfails : (verifyWorkspace evalWorkspace evalInput).toOption.map (·.verification.overall) =
      some .fail := by decide
  cases hok : verifyWorkspace evalWorkspace evalInput with
  | error message => rw [hok] at hfails; cases hfails
  | ok packet =>
    obtain ⟨profile, files, hprofile, hsanitized, -, hjudged⟩ :=
      verified_workspace evalWorkspace evalInput (by decide)
        (LintSetup.publishes_verifiers _) hok
    have hlanguage : evalInput.profile = .ok (profileForLanguage .javascript) := rfl
    have hfiles : evalInput.sanitized = .ok (some ["a.js"]) := rfl
    obtain rfl := Except.ok.inj (hprofile.symm.trans hlanguage)
    obtain rfl := Except.ok.inj (hsanitized.symm.trans hfiles)
    rw [hok] at hfails
    exact ⟨packet, rfl, Option.some.inj hfails, hjudged (.inl (by decide))⟩

end KirkForge
