import KirkForge.Orchestrator.Delegate
import KirkForge.Orchestrator.EmptyEmission

/-!
# Runs of delegations

What holds however the calls of `delegate` interleave. An agent is executed only for a call that the
policy has let in (`delegations_vetted`). The counters count the results that are delivered
(`delegations_counted`). A file on disk changes only as a part of an answer that the result lists,
below the directory that was the working directory when the memory had answered, or is the temporary
file of a write that failed and is reported (`delegations_contained`). A call that nothing
interrupts is finalized as `finalizeValue` does it at once (`moves_finalReplies`).
-/

namespace KirkForge

open RoutingEngine (Recommendation)

variable (env : DelegateEnv)

/-! ### The files of an answer -/

/-- What an answer can be written as. -/
def DelegationResult.texts (value : DelegationResult) : List String :=
  match value.decision.mode with
  | .hardPrompt => (codeBlocks value.emission.content).map (· ++ "\n")
  | .artifact => (parseJsonlArtifacts env.artifact value.emission.content).artifacts.map (·.content)
  | .schemaContract | .taskDecompose => []

/-- A file that is there may be written over. -/
def MayOverwrite (task : TaskInput) (value : DelegationResult) : Prop :=
  allowOverwrite (task.profile.map EmissionSchema.like) = true ∨
    value.decision.mode = .hardPrompt ∧ task.targetFile.isSome = true

/-- A path below the working directory, not one that the profile denies, is listed in the result. -/
structure ListedAs (task : TaskInput) (cwd : AbsPath) (value : DelegationResult)
    (p : List (List Char)) (name : String) : Prop where
  listed : name ∈ extractWrittenFiles value
  path : (cwd.resolve name).segments = p
  inside : (cwd.resolve name).Inside cwd
  not_denied : deniedPath (task.profile.map EmissionSchema.like)
    (cwd.relative (cwd.resolve name)) = false

/-- The file at a path is part of an answer, and one that was on the disk was written over with
leave. -/
structure WrittenAs (disk : ArtifactDisk) (task : TaskInput) (cwd : AbsPath)
    (value : DelegationResult) (p : List (List Char)) (file : Option (Nat × ByteArray)) : Prop where
  listed : ∃ name, ListedAs task cwd value p name
  contents : ∃ id, ∃ text ∈ value.texts env, file = some (id, text.toByteArray)
  leave : (disk.file? p).isSome = true → MayOverwrite task value

/-- A new temporary file holds a part of the answer to a hard prompt: the write of a path that is
listed as blocked failed behind it. -/
structure LeftAs (disk : ArtifactDisk) (task : TaskInput) (cwd : AbsPath)
    (value : DelegationResult) (p : List (List Char)) (file : Option (Nat × ByteArray)) : Prop where
  prompt : value.decision.mode = .hardPrompt
  path : ∃ name io, p = dirname (cwd.resolve name) ++ [tmpName io (cwd.resolve name)] ∧
    (cwd.resolve name).Inside cwd ∧
    deniedPath (task.profile.map EmissionSchema.like) (cwd.relative (cwd.resolve name)) = false ∧
    ∃ sig ∈ value.signals, ∃ v, sig.value = .artifactBlocked v ∧
      ⟨name, "write error: " ++ name⟩ ∈ v.blockedPaths
  contents : ∃ id, ∃ text ∈ value.texts env, file = some (id, text.toByteArray)
  new : disk.file? p = none

/-- The result accounts for the file at a path. -/
def DelegationResult.Accounts (disk : ArtifactDisk) (task : TaskInput) (cwd : AbsPath)
    (value : DelegationResult) (p : List (List Char)) (file : Option (Nat × ByteArray)) : Prop :=
  WrittenAs env disk task cwd value p file ∨ LeftAs env disk task cwd value p file

/-- The names of the temporary files of an answer are unused. -/
def FreshAnswer (task : TaskInput) (cwd : AbsPath) (w : WriterIo) (emission : AgentEmission)
    (disk : ArtifactDisk) : AgentMode → Prop
  | .hardPrompt => emission.wasTruncated = false →
    let blocks := codeBlocks emission.content
    let ext := extensionForLanguage (task.profile.map (·.language.name))
    let baseName :=
      task.targetFile.getD ((task.profile.map (·.defaultFile)).getD ("output" ++ ext))
    FreshBlocks env.sha256 cwd task.profile task.targetFile.isSome w.io
      (blockName task.targetFile baseName blocks.length) { disk }
      (blockIndices task.targetFile blocks)
  | .schemaContract => True
  | .artifact => ¬ProtocolBroken env.artifact emission.toEmission →
    FreshNames env.sha256 cwd (task.profile.map EmissionSchema.like) w.io 0 disk
      (parseJsonlArtifacts env.artifact emission.content).artifacts

section Files

variable {env} {task : TaskInput} {cwd : AbsPath} {taskId : String} {w : WriterIo}
  {emission : AgentEmission} {disk : ArtifactDisk}

theorem mem_blockIndices {targetFile : Option String} {blocks : List String}
    {block : String × Nat} (h : block ∈ blockIndices targetFile blocks) : block.1 ∈ blocks := by
  have hzip (h : block ∈ blocks.zipIdx) : block.1 ∈ blocks := by
    obtain ⟨-, -, hget⟩ := List.mem_zipIdx h
    rw [hget]
    exact List.getElem_mem _
  rw [blockIndices] at h
  split at h
  · have hsorted := List.mem_of_mem_take h
    rw [List.mem_mergeSort] at hsorted
    exact hzip (List.mem_of_mem_filter hsorted)
  · exact hzip h

theorem map_path_mapIdx {f : Nat → String → EmittedFile} (hf : ∀ i name, (f i name).path = name)
    (names : List String) : (names.mapIdx f).map (·.path) = names :=
  List.ext_getElem (by simp) (by simp [hf])

/-- What a hard prompt leaves on the disk and lists. -/
theorem executeHardPrompt_ok (env : DelegateEnv) (cwd : AbsPath) (profile : Option EmissionSchema)
    (taskId : String) (w : WriterIo) (targetFile : Option String) (emission : AgentEmission)
    (disk : ArtifactDisk) :
    let persisted := persistCodeBlocks env.sha256 cwd profile w.io w.readBack emission.content
      targetFile targetFile.isSome disk
    ∃ value, (executeHardPrompt env cwd profile taskId w targetFile (.ok emission) disk).2 =
        .ok value ∧
      value.emission = emission.toEmission ∧ value.decision.mode = .hardPrompt ∧
      (emission.wasTruncated = true ∧
        (executeHardPrompt env cwd profile taskId w targetFile (.ok emission) disk).1 = disk ∨
      emission.wasTruncated = false ∧
        (executeHardPrompt env cwd profile taskId w targetFile (.ok emission) disk).1 =
          persisted.1 ∧
        extractWrittenFiles value = persisted.2.written.filter (· ≠ "") ∧
        ∀ path ∈ persisted.2.blocked, ∃ sig ∈ value.signals, ∃ v,
          sig.value = .artifactBlocked v ∧ path ∈ v.blockedPaths) := by
  intro persisted
  cases htruncated : emission.wasTruncated with
  | true =>
    simp only [executeHardPrompt, htruncated, if_true]
    exact ⟨_, rfl, rfl, rfl, .inl ⟨trivial, trivial⟩⟩
  | false =>
    simp only [executeHardPrompt, htruncated, Bool.false_eq_true, if_false]
    refine ⟨_, rfl, rfl, rfl, .inr ⟨trivial, rfl, ?_, fun path hpath => ?_⟩⟩
    · exact congrArg (List.filter (· ≠ "")) (map_path_mapIdx (fun _ _ => rfl) _)
    · let sig : DelegationSignal := {
        id := "sig-blocked-" ++ taskId, taskId, domain := "code", source := emission.agentId
        ts := w.now, value := .artifactBlocked { blockedPaths := persisted.2.blocked } }
      have hsig : sig ∈ if persisted.2.blocked.length > 0 then [sig] else [] := by
        rw [if_pos (List.length_pos_of_mem hpath)]
        exact List.mem_singleton_self sig
      exact ⟨sig, List.mem_append_left _ (List.mem_append_right _ hsig), _, rfl, hpath⟩

/-- The empty name is that of the working directory itself. -/
theorem ne_empty_of_inside {name : String} (h : (cwd.resolve name).Inside cwd) : name ≠ "" := by
  rintro rfl
  obtain ⟨s, rest, h⟩ := h
  have hself : (cwd.resolve "").segments = cwd.segments := by
    rw [AbsPath.segments_resolve]
    exact List.reverse_reverse cwd.segments
  rw [hself] at h
  exact absurd (congrArg List.length h) (by simp)

/-- A hard prompt leaves a path as it was, or puts a block there and accounts for it. -/
theorem executeHardPrompt_writes
    (hfresh : FreshAnswer env task cwd w emission disk .hardPrompt) (p : List (List Char)) :
    let result :=
      executeHardPrompt env cwd task.profile taskId w task.targetFile (.ok emission) disk
    result.1.file? p = disk.file? p ∨
      ∃ value, result.2 = .ok value ∧ value.Accounts env disk task cwd p (result.1.file? p) := by
  intro result
  obtain ⟨value, hvalue, hemission, hmode, ⟨-, hdisk⟩ | ⟨htruncated, hdisk, hfiles, hblocked⟩⟩ :=
    executeHardPrompt_ok env cwd task.profile taskId w task.targetFile emission disk
  · exact .inl (congrArg (FileSystem.file? · p) hdisk)
  have htexts : value.texts env = (codeBlocks emission.content).map (· ++ "\n") := by
    rw [DelegationResult.texts, hmode, hemission]
  have hcontents {s : PersistState} (hs : s.disk = result.1) {blocks : List (String × Nat)}
      (hblocks : ∀ block ∈ blocks, block.1 ∈ codeBlocks emission.content)
      (h : ∃ block ∈ blocks, ∃ id,
        s.disk.file? p = some (id, (block.1 ++ "\n").toByteArray)) :
      ∃ id, ∃ text ∈ value.texts env, result.1.file? p = some (id, text.toByteArray) := by
    obtain ⟨block, hblock, id, hfile⟩ := h
    refine ⟨id, block.1 ++ "\n", ?_, hs ▸ hfile⟩
    rw [htexts]
    exact List.mem_map_of_mem (hblocks block hblock)
  obtain hsame | ⟨name, h | h⟩ := file?_persistRun (hfresh htruncated) p
  · exact .inl ((congrArg (FileSystem.file? · p) hdisk).trans hsame)
  · have hinside := isInsideCwd_iff.mp h.passes.1
    refine .inr ⟨value, hvalue, .inl ⟨⟨name, ?_, h.path, hinside, h.passes.2.2⟩,
      hcontents hdisk.symm (fun _ => mem_blockIndices) h.contents, fun hsome => ?_⟩⟩
    · rw [hfiles]
      exact List.mem_filter.mpr ⟨h.written, decide_eq_true (ne_empty_of_inside hinside)⟩
    · by_contra hnot
      obtain ⟨hno, hforce⟩ := not_or.mp hnot
      have hforce : task.targetFile.isSome = false := by simpa [hmode] using hforce
      rw [h.new hforce (Bool.eq_false_iff.mpr hno)] at hsome
      cases hsome
  · obtain ⟨io, hpath⟩ := h.path
    exact .inr ⟨value, hvalue, .inr ⟨hmode, ⟨name, io, hpath, isInsideCwd_iff.mp h.passes.1,
      h.passes.2.2, hblocked _ h.blocked⟩,
      hcontents hdisk.symm (fun _ => mem_blockIndices) h.contents, h.new⟩⟩

theorem executeArtifact_ok {World : Type} (env : ArtifactEnv)
    (writeArtifacts : List ParsedArtifact → World → World × List WriteResult) (taskId now : String)
    (profile : Option TaskProfile) (emission : Emission) (world : World) :
    ∃ value, (executeArtifact env writeArtifacts taskId now profile (.ok emission) world).2 =
      .ok value ∧ value.emission = emission ∧ value.decision.mode = .artifact :=
  ⟨_, rfl, rfl, rfl⟩

theorem world_executeArtifact {World : Type} (env : ArtifactEnv)
    (writeArtifacts : List ParsedArtifact → World → World × List WriteResult) (taskId now : String)
    (profile : Option TaskProfile) (emission : Emission) (world : World) :
    (executeArtifact env writeArtifacts taskId now profile (.ok emission) world).1 =
      if ProtocolBroken env emission then world
      else (writeArtifacts (parseJsonlArtifacts env emission.content).artifacts world).1 := by
  simp only [executeArtifact]
  split
  · next h => exact (if_pos h).symm
  · next h => exact (if_neg h).symm

/-- Artifacts leave a path as it was, or one is written there and listed. -/
theorem executeArtifact_writes {now : String}
    (hfresh : FreshAnswer env task cwd w emission disk .artifact) (p : List (List Char)) :
    let result := executeArtifact env.artifact (env.writeArtifacts cwd task.profile w) taskId now
      (task.profile.map (·.toTaskProfile)) (.ok emission.toEmission) disk
    result.1.file? p = disk.file? p ∨
      ∃ value, result.2 = .ok value ∧ WrittenAs env disk task cwd value p (result.1.file? p) := by
  intro result
  have hdisk : result.1 = _ := world_executeArtifact env.artifact
    (env.writeArtifacts cwd task.profile w) taskId now (task.profile.map (·.toTaskProfile))
    emission.toEmission disk
  by_cases hbroken : ProtocolBroken env.artifact emission.toEmission
  · rw [if_pos hbroken] at hdisk
    exact .inl (congrArg (FileSystem.file? · p) hdisk)
  rw [if_neg hbroken] at hdisk
  obtain ⟨value, hvalue, hemission, hmode⟩ := executeArtifact_ok env.artifact
    (env.writeArtifacts cwd task.profile w) taskId now (task.profile.map (·.toTaskProfile))
    emission.toEmission disk
  obtain ⟨value', writes, -, -, -, -, hvalue', hwrites, -, hfiles⟩ := executeArtifact_events
    env.artifact (env.writeArtifacts cwd task.profile w) taskId now
    (task.profile.map (·.toTaskProfile)) emission.toEmission disk
  obtain rfl : value = value' := Except.ok.inj (hvalue.symm.trans hvalue')
  rw [if_neg hbroken] at hwrites
  rw [hwrites] at hfiles
  have hentries := entries_writeArtifacts (hfresh hbroken)
  have hlast := file?_writeArtifacts (hfresh hbroken) p
  rw [DelegateEnv.writeArtifacts] at hdisk
  rw [← hdisk] at hlast
  cases hart : lastWritten cwd p (parseJsonlArtifacts env.artifact emission.content).artifacts
      (writeArtifacts env.sha256 cwd (task.profile.map EmissionSchema.like) w.io 0 disk
        (parseJsonlArtifacts env.artifact emission.content).artifacts).2 with
  | none =>
    rw [hart] at hlast
    exact .inl hlast
  | some art =>
    rw [hart] at hlast
    obtain ⟨id, -, hfile⟩ := hlast
    obtain ⟨hmem, hpass, hpath⟩ := passesChecks_of_lastWritten hentries hart
    have hsome := congrArg Option.isSome hart
    obtain ⟨entry, hentry, hok, hentrypath⟩ := (lastWritten_isSome_iff hentries p).mp hsome
    have hinside := isInsideCwd_iff.mp hpass.inside
    have hsame : cwd.resolve entry.filePath = cwd.resolve art.filePath :=
      AbsPath.eq_of_segments_eq (hentrypath.trans hpath.symm)
    have hwritten (hleave : (disk.file? p).isSome = true → MayOverwrite task value) :
        WrittenAs env disk task cwd value p (result.1.file? p) := by
      refine ⟨⟨entry.filePath, ?_, hentrypath, hsame ▸ hinside, hsame ▸ hpass.not_denied⟩,
        ⟨id, art.content, ?_, hfile⟩, hleave⟩
      · rw [hfiles]
        refine List.mem_filter.mpr ⟨List.mem_map_of_mem (List.mem_filter.mpr ⟨hentry, hok⟩), ?_⟩
        exact decide_eq_true (ne_empty_of_inside (hsame ▸ hinside))
      · rw [DelegationResult.texts, hmode, hemission]
        exact List.mem_map_of_mem hmem
    cases hno : allowOverwrite (task.profile.map EmissionSchema.like) with
    | true => exact .inr ⟨value, hvalue, hwritten fun _ => .inl hno⟩
    | false =>
      cases hold : disk.file? p with
      | none => exact .inr ⟨value, hvalue, hwritten fun hsome => nomatch hold ▸ hsome⟩
      | some f =>
        have hkept := kept_writeArtifacts (hfresh hbroken) hno hold
        exact .inl ((congrArg (FileSystem.file? · p) hdisk).trans hkept)

theorem execute_error (env : DelegateEnv) (mode : AgentMode) (cwd : AbsPath)
    (profile : Option EmissionSchema) (taskId : String) (w : WriterIo) (targetFile : Option String)
    (message : String) (disk : ArtifactDisk) :
    mode.execute env cwd profile taskId w targetFile (.error message) disk =
      (disk, .error message) := by
  cases mode <;> rfl

theorem execute_writes (taskId : String) (mode : AgentMode)
    (hfresh : FreshAnswer env task cwd w emission disk mode) (p : List (List Char)) :
    let result := mode.execute env cwd task.profile taskId w task.targetFile (.ok emission) disk
    result.1.file? p = disk.file? p ∨
      ∃ value, result.2 = .ok value ∧ value.Accounts env disk task cwd p (result.1.file? p) := by
  cases mode with
  | hardPrompt => exact executeHardPrompt_writes hfresh p
  | schemaContract => exact .inl rfl
  | artifact =>
    exact (executeArtifact_writes hfresh p).imp_right fun ⟨value, hvalue, h⟩ =>
      ⟨value, hvalue, .inl h⟩

end Files

namespace Delegate

/-! ### What a call may do -/

section Vetted

variable {env} {s : Shared} {c : Call} {gate : Gate} {task : TaskInput} {phase : Phase}
  {provider : ModelProviderConfig} {recommendation : Option Recommendation}

/-- The orchestrator is not shut down, and its policy, if it has one, allows the configured model
and the language that is detected. -/
structure Admitted (env : DelegateEnv) (gate : Gate) (task : TaskInput) : Prop where
  running : gate.shuttingDown = false
  allowed : ∀ engine, gate.policy = some engine →
    (∃ provider, resolveProvider env none = some provider ∧
      (engine.checkModel provider.defaultModel none).allowed = true) ∧
    (engine.checkTool (detectTaskProfile task.description).language.name).allowed = true

/-- The provider is the configured one, has a model that the memory prefers, or decomposes. -/
inductive Chosen (env : DelegateEnv) (task : TaskInput) (recommendation : Option Recommendation)
    (gateThen : Option Gate) : ModelProviderConfig → Prop
  | configured (config : ModelProviderConfig) (hconfig : resolveProvider env none = some config) :
    Chosen env task recommendation gateThen config
  | preferred (config : ModelProviderConfig) (hconfig : resolveProvider env none = some config)
    (r : Recommendation) (hr : recommendation = some r)
    (model : String) (hmodel : r.routingBias.prefer.head? = some model)
    (hconfidence : 65 / 100 ≤ r.routingBias.confidence)
    (hknown : if ':' ∈ model.toList then Text.startsWith model (config.provider ++ ":") = true
      else ∃ e ∈ env.modelConfig.providers.entries, e.2.defaultModel = model) :
    Chosen env task recommendation gateThen { config with defaultModel := model }
  | decomposer (config : ModelProviderConfig)
    (hconfig : env.modelConfig.providers.get? env.decomposeProvider = some config)
    (gate : Gate) (hgate : gateThen = some gate) (hadmitted : Admitted env gate task) :
    Chosen env task recommendation gateThen config

def Call.Chosen (env : DelegateEnv) (c : Call) (config : ModelProviderConfig) : Prop :=
  Delegate.Chosen env c.task c.recommendation c.gateThen config

/-- A call has executed no agent and emitted nothing, or it was let in and has executed the agent of
one provider, once unless it decomposes. -/
def Vetted (env : DelegateEnv) (c : Call) : Prop :=
  c.executions = [] ∧ c.emitted = none ∨
    Admitted env c.gate c.task ∧ ∃ provider, c.Chosen env provider ∧
      (c.executions = [provider] ∨ c.gateThen.isSome = true ∧ c.executions = [provider, provider])

theorem letIn_eq_ok {engine : PolicyHolder}
    (h : KirkForge.letIn env (some engine) task = .ok ()) :
    (∃ provider, resolveProvider env none = some provider ∧
      (engine.checkModel provider.defaultModel none).allowed = true) ∧
    (engine.checkTool (detectTaskProfile task.description).language.name).allowed = true := by
  simp only [KirkForge.letIn] at h
  split at h
  · cases h
  · next provider hprovider =>
    split at h
    · cases h
    · next hmodel =>
      split at h
      · cases h
      · next htool => exact ⟨⟨provider, hprovider, by simpa using hmodel⟩, by simpa using htool⟩

theorem admitted_of_letIn (h : gate.letIn env task = .ok ()) : Admitted env gate task := by
  obtain ⟨policy, shuttingDown⟩ := gate
  cases shuttingDown with
  | true => cases h
  | false =>
    refine ⟨rfl, fun engine hengine => letIn_eq_ok ?_⟩
    rw [← hengine]
    exact h

/-- The model of a provider is replaced only by one that the memory prefers. -/
theorem applyMemoryModelBias_cases (env : DelegateEnv) (config : ModelProviderConfig)
    (recommendation : Option Recommendation) :
    applyMemoryModelBias env config recommendation = config ∨ ∃ r model,
      recommendation = some r ∧ r.routingBias.prefer.head? = some model ∧
      65 / 100 ≤ r.routingBias.confidence ∧
      (if ':' ∈ model.toList then Text.startsWith model (config.provider ++ ":") = true
        else ∃ e ∈ env.modelConfig.providers.entries, e.2.defaultModel = model) ∧
      applyMemoryModelBias env config recommendation = { config with defaultModel := model } := by
  cases recommendation with
  | none => exact .inl rfl
  | some r =>
    cases hprefer : r.routingBias.prefer with
    | nil => exact .inl (by simp only [applyMemoryModelBias, hprefer])
    | cons preferred others =>
      simp only [applyMemoryModelBias, hprefer]
      split
      · exact .inl rfl
      · next hbias =>
        obtain ⟨-, hbias⟩ := not_or.mp hbias
        obtain ⟨hconfidence, hother⟩ := not_or.mp hbias
        split
        · next hknown =>
          refine .inr ⟨r, preferred, rfl, by rw [hprefer]; rfl, not_lt.mp hconfidence, ?_, rfl⟩
          split
          · next hcolon => simpa [hcolon] using hknown
          · next hcolon => simpa [hcolon, hother] using hknown
        · exact .inl rfl

theorem chosen_of_resolveProvider (h : resolveProvider env recommendation = some provider)
    (hc : c.recommendation = recommendation) : c.Chosen env provider := by
  obtain ⟨config, hconfig, rfl⟩ := Option.map_eq_some_iff.mp h
  have hresolved : resolveProvider env none = some config := by
    rw [resolveProvider, hconfig]
    rfl
  obtain hsame | ⟨r, model, hr, hmodel, hconfidence, hknown, hbiased⟩ :=
    applyMemoryModelBias_cases env config recommendation
  · rw [hsame]
    exact .configured _ hresolved
  · rw [hbiased]
    exact .preferred _ hresolved r (hc.trans hr) model hmodel hconfidence hknown

/-- What is known of a call before its mode has made something of an answer. -/
def Call.Early (env : DelegateEnv) (c : Call) : Prop :=
  match c.phase with
  | .recalling => c.emitted = none ∧ c.executions = [] ∧ Admitted env c.gate c.task
  | .asking _ cwd => c.emitted = none ∧ c.executions ≠ [] ∧ c.cwd = some cwd
  | .decomposing provider retried => c.emitted = none ∧
    c.executions = (if retried then [provider, provider] else [provider]) ∧ c.gateThen.isSome = true ∧
    Admitted env c.gate c.task ∧ c.Chosen env provider
  | _ => True

/-- The result that a call has been settled with. -/
def Phase.delivered : Phase → Option DelegationResult
  | .done result => result.value?.join
  | _ => none

def Call.delivered (c : Call) : Option DelegationResult := c.phase.delivered

structure Underway (env : DelegateEnv) (c : Call) : Prop where
  vetted : Vetted env c
  early : c.Early env
  delivered : c.delivered = none

theorem Underway.settle (h : Vetted env c)
    {result : Settled ExecutionError (Option DelegationResult)}
    (hresult : result.value?.join = none) : Underway env (c.settle result) :=
  ⟨h, trivial, hresult⟩

theorem Vetted.emit (h : Vetted env c) (hexecutions : c.executions ≠ []) (value : DelegationResult) :
    Underway env (c.emit env value) where
  vetted := .inr (h.resolve_left fun hnone => hexecutions hnone.1)
  early := trivial
  delivered := rfl

theorem underway_start (env : DelegateEnv) (s : Shared) (r : Request) :
    Underway env (s.start env r) := by
  simp only [Shared.start]
  cases hadmit : s.toGate.letIn env r.task with
  | ok u => exact ⟨.inl ⟨rfl, rfl⟩, ⟨rfl, rfl, admitted_of_letIn hadmit⟩, rfl⟩
  | failed e => exact .settle (.inl ⟨rfl, rfl⟩) rfl
  | threw message => exact .settle (.inl ⟨rfl, rfl⟩) rfl

theorem underway_decomposeTask (hgate : Admitted env c.gate c.task) (hemitted : c.emitted = none)
    (hexecutions : c.executions = []) : Underway env (c.decomposeTask env s) := by
  have hvetted : Vetted env { c with gateThen := some s.toGate } := .inl ⟨hexecutions, hemitted⟩
  simp only [Call.decomposeTask]
  cases hadmit : s.toGate.letIn env c.task with
  | failed e => exact .settle hvetted rfl
  | threw message => exact .settle hvetted rfl
  | ok u =>
    cases hconfig : env.modelConfig.providers.get? env.decomposeProvider with
    | none => exact .settle hvetted rfl
    | some config =>
      have hchosen : Chosen env c.task c.recommendation (some s.toGate) config :=
        .decomposer config hconfig s.toGate rfl (admitted_of_letIn hadmit)
      have hone : c.executions ++ [config] = [config] := by rw [hexecutions, List.nil_append]
      exact ⟨.inr ⟨hgate, config, hchosen, .inl hone⟩, ⟨hemitted, hone, rfl, hgate, hchosen⟩, rfl⟩

theorem underway_ask (hchosen : c.Chosen env provider) (hgate : Admitted env c.gate c.task)
    (hemitted : c.emitted = none) (hexecutions : c.executions = []) (mode : AgentMode)
    (cwd : AbsPath) :
    Underway env (c.ask mode cwd provider) := by
  have hone : c.executions ++ [provider] = [provider] := by rw [hexecutions, List.nil_append]
  refine ⟨.inr ⟨hgate, provider, hchosen, .inl hone⟩, ⟨hemitted, ?_, rfl⟩, rfl⟩
  exact List.append_ne_nil_of_right_ne_nil _ (List.cons_ne_nil _ _)

theorem underway_recalled (hgate : Admitted env c.gate c.task) (hemitted : c.emitted = none)
    (hexecutions : c.executions = []) (recommendation : Option Recommendation) :
    Underway env (c.recalled env s recommendation) := by
  have hvetted : Vetted env { c with recommendation } := .inl ⟨hexecutions, hemitted⟩
  simp only [Call.recalled]
  split
  · exact .settle hvetted rfl
  · next provider hprovider =>
    have hchosen : Call.Chosen env { c with recommendation } provider :=
      chosen_of_resolveProvider hprovider rfl
    split
    · exact .settle hvetted rfl
    · exact underway_ask hchosen hgate hemitted hexecutions _ _
    · split
      · exact underway_ask hchosen hgate hemitted hexecutions _ _
      · exact .settle hvetted rfl
    · exact underway_ask hchosen hgate hemitted hexecutions _ _
    · exact underway_decomposeTask hgate hemitted hexecutions

theorem underway_executed (h : Vetted env c) (hexecutions : c.executions ≠ [])
    (result : ArtifactDisk × Except String DelegationResult) :
    Underway env (c.executed env s result).2 := by
  simp only [Call.executed]
  split
  · exact .settle h rfl
  · exact h.emit hexecutions _

theorem underway_answered (h : Vetted env c) (hexecutions : c.executions ≠ []) (mode : AgentMode)
    (cwd : AbsPath) (w : WriterIo) (result : Settled String AgentEmission) :
    Underway env (c.answered env s mode cwd w result).2 := by
  cases result with
  | ok emission => exact underway_executed h hexecutions _
  | failed message => exact underway_executed h hexecutions _
  | threw message => exact .settle h rfl

theorem underway_decomposed {retried : Bool} (h : Vetted env c)
    (hphase : c.phase = .decomposing provider retried) (hearly : c.Early env) (now : String)
    (result : Settled String AgentEmission) :
    Underway env (c.decomposed env provider retried now result) := by
  rw [Call.Early, hphase] at hearly
  obtain ⟨hemitted, hexecutions, hthen, hgate, hchosen⟩ := hearly
  have hne : c.executions ≠ [] := by
    rw [hexecutions]
    split
    · exact List.cons_ne_nil _ _
    · exact List.cons_ne_nil _ _
  cases result with
  | threw message => exact .settle h rfl
  | failed message => exact .settle h rfl
  | ok emission =>
    rw [Call.decomposed]
    cases parseDecomposition env.syntaxMessage emission.content with
    | none => exact .settle h rfl
    | some parsed =>
      cases parsed with
      | ok d => exact h.emit hne _
      | error message =>
        cases retried with
        | true => exact .settle h rfl
        | false =>
          have htwo : c.executions ++ [provider] = [provider, provider] := by
            rw [hexecutions]
            rfl
          exact ⟨.inr ⟨hgate, provider, hchosen, .inr ⟨hthen, htwo⟩⟩,
            ⟨hemitted, htwo, hthen, hgate, hchosen⟩, rfl⟩

theorem stats_deliver (s : Shared) (event : ReducerSignal) (dropped : Bool) :
    (s.deliver event dropped).state.stats = s.state.stats := by
  cases dropped <;> rfl

theorem stats_answered (s : Shared) (c : Call) (mode : AgentMode) (cwd : AbsPath) (w : WriterIo)
    (result : Settled String AgentEmission) :
    (c.answered env s mode cwd w result).1.state.stats = s.state.stats := by
  cases result <;> rfl

theorem underway_startVerifiers (h : Vetted env c) (value : DelegationResult)
    (verifiers : VerifierEnv) : Underway env (c.startVerifiers value verifiers) := by
  rw [Call.startVerifiers]
  split
  · exact ⟨h, trivial, rfl⟩
  · exact .settle h rfl

/-- What one move can do: nothing, go on without a result, or deliver one. -/
theorem move_cases (h : Vetted env c) (hearly : c.Early env) {reply : Reply} {r : Shared × Call}
    (hmove : move env s c reply = r) :
    r = (s, c) ∨ c.delivered = none ∧
      (r.1.state.stats = s.state.stats ∧ Underway env r.2 ∨ ∃ value, r = c.finish s value) := by
  have hopen (hnone : c.delivered = none)
      (hnext : r.1.state.stats = s.state.stats ∧ Underway env r.2 ∨ ∃ value, r = c.finish s value) :
      r = (s, c) ∨ c.delivered = none ∧
        (r.1.state.stats = s.state.stats ∧ Underway env r.2 ∨ ∃ value, r = c.finish s value) :=
    .inr ⟨hnone, hnext⟩
  unfold move at hmove
  split at hmove
  · next recommendation hphase =>
    rw [Call.Early, hphase] at hearly
    subst hmove
    refine hopen (congrArg Phase.delivered hphase) (.inl ⟨rfl, ?_⟩)
    exact underway_recalled hearly.2.2 hearly.1 hearly.2.1 recommendation
  · next mode cwd result w hphase =>
    rw [Call.Early, hphase] at hearly
    subst hmove
    refine hopen (congrArg Phase.delivered hphase) (.inl ⟨stats_answered .., ?_⟩)
    exact underway_answered h hearly.2.1 mode cwd w result
  · next provider retried result w hphase =>
    subst hmove
    refine hopen (congrArg Phase.delivered hphase) (.inl ⟨rfl, ?_⟩)
    exact underway_decomposed h hphase hearly w.now result
  · next value event events dropped hphase =>
    subst hmove
    refine hopen (congrArg Phase.delivered hphase) (.inl ⟨stats_deliver .., h, trivial, rfl⟩)
  · next value verifiers hphase =>
    subst hmove
    refine hopen (congrArg Phase.delivered hphase) (.inl ⟨rfl, ?_⟩)
    exact underway_startVerifiers h value verifiers
  · next value event events dropped hphase =>
    subst hmove
    refine hopen (congrArg Phase.delivered hphase) (.inl ⟨stats_deliver .., h, trivial, rfl⟩)
  · next value now hphase =>
    refine hopen (congrArg Phase.delivered hphase) ?_
    simp only [Call.verified] at hmove
    split at hmove
    · exact .inr ⟨_, hmove.symm⟩
    · subst hmove
      exact .inl ⟨rfl, h, trivial, rfl⟩
  · next value hphase =>
    exact hopen (congrArg Phase.delivered hphase) (.inr ⟨value, hmove.symm⟩)
  · exact .inl hmove.symm

/-- What a call that is vetted keeps. -/
def Sound (env : DelegateEnv) (c : Call) : Prop := Vetted env c ∧ c.Early env

theorem sound_move (h : Sound env c) (s : Shared) (reply : Reply) :
    Sound env (move env s c reply).2 := by
  obtain hsame | ⟨-, ⟨-, hnext⟩ | ⟨value, hfinish⟩⟩ :=
    move_cases h.1 h.2 (Eq.refl (move env s c reply))
  · rw [hsame]
    exact h
  · exact ⟨hnext.vetted, hnext.early⟩
  · rw [hfinish]
    exact ⟨h.1, trivial⟩

theorem sound_step {p : Processes.Pool Shared Call} (h : ∀ c ∈ p.procs, Sound env c)
    (input : Processes.Input Outside Request Reply) :
    ∀ c ∈ ((calls env).step p input).procs, Sound env c := by
  refine Processes.step_all (fun r => ?_) (fun k reply _ c hc => sound_move hc p.shared reply) h
  have hstart := underway_start env p.shared r
  exact ⟨hstart.vetted, hstart.early⟩

/-- However the calls, the answers, changes of the policy and a shutdown interleave, an agent is
executed only for a call that was let in, and with no other provider than the chosen one. -/
theorem delegations_vetted (env : DelegateEnv) (s : Shared)
    (inputs : List (Processes.Input Outside Request Reply)) :
    Run.AllStates (calls env).step (fun p => ∀ c ∈ p.procs, Vetted env c) ⟨s, []⟩ inputs := by
  have hrun : Run.AllStates (calls env).step (fun p => ∀ c ∈ p.procs, Sound env c) ⟨s, []⟩ inputs :=
    Run.allStates_of_forall (fun p input h => sound_step h input) (List.forall_mem_nil _)
  exact hrun.mono fun p h c hc => (h c hc).1

end Vetted

/-! ### A call that nothing interrupts -/

section Alone

variable {env} {s : Shared} {c : Call} {profile : EmissionSchema}

/-- The moves of one call. -/
def moves (env : DelegateEnv) (x : Shared × Call) (replies : List Reply) : Shared × Call :=
  replies.foldl (fun x reply => move env x.1 x.2 reply) x

theorem moves_cons (x : Shared × Call) (reply : Reply) (replies : List Reply) :
    moves env x (reply :: replies) = moves env (move env x.1 x.2 reply) replies := rfl

def Shared.deliverAll (s : Shared) (events : List ReducerSignal) : Shared :=
  { s with state := { s.state with reducer := s.state.reducer.recordAll events } }

/-- The events that a call waits for are delivered or dropped one by one. -/
theorem moves_delivered (phase : List ReducerSignal → Phase)
    (hphase : ∀ s event events dropped, move env s (c.goto (phase (event :: events)))
      (.delivered dropped) = (s.deliver event dropped, c.goto (phase events)))
    (kept : ReducerSignal → Bool) (s : Shared) (events : List ReducerSignal)
    (replies : List Reply) :
    moves env (s, c.goto (phase events))
        (events.map (fun event => .delivered (!kept event)) ++ replies) =
      moves env (s.deliverAll (events.filter kept), c.goto (phase [])) replies := by
  induction events generalizing s with
  | nil => rfl
  | cons event events ih =>
    rw [List.map_cons, List.cons_append, moves_cons, hphase, ih, List.filter_cons]
    cases kept event <;> rfl

theorem requiredVerifiers_eq (h : c.task.profile = some profile) :
    c.task.requiredVerifiers = some (c.task.verifierPolicy.getD profile.verifierPolicy) := by
  rw [TaskInput.requiredVerifiers, h]
  cases c.task.verifierPolicy <;> rfl

theorem startVerifiers_eq (h : c.task.profile = some profile) (value : DelegationResult)
    (verifiers : VerifierEnv) : c.startVerifiers value verifiers =
      c.goto (.verifying value (runVerifiers verifiers c.taskId (Call.writtenFiles value)
        (some profile.language) (Call.writtenFiles value))) := by
  simp only [Call.startVerifiers, TaskInput.hasProfile, h, Option.isSome_some, Bool.true_or,
    if_true, Option.map_some]

/-- The replies that follow the verifiers. -/
def Call.lastReplies (c : Call) (now : String) : List Reply :=
  .verified now :: if c.task.suppressMemory = some true then [] else [.remembered]

theorem moves_lastReplies (s : Shared) (value : DelegationResult) (now : String) :
    moves env (s, c.goto (.verifying value [])) (c.lastReplies now) =
      c.finish s { value with packet := some (c.packet s value now) } := by
  rw [Call.lastReplies, moves_cons]
  by_cases hsuppress : c.task.suppressMemory = some true
  · rw [if_pos hsuppress]
    exact if_pos hsuppress
  · rw [if_neg hsuppress]
    have hverified : move env s (c.goto (.verifying value [])) (.verified now) =
        (s, c.goto (.remembering { value with packet := some (c.packet s value now) })) :=
      if_neg hsuppress
    rw [hverified]
    rfl

/-- The arguments with which a call is finalized. -/
def finalizeArgs (env : DelegateEnv) (s : Shared) (c : Call) (profile : TaskProfile)
    (value : DelegationResult) (verifiers : VerifierEnv) : FinalizeArgs where
  taskId := c.taskId
  mode := value.decision.mode
  profile := { profile with
    verifierPolicy := c.task.verifierPolicy.getD profile.verifierPolicy }
  env := verifiers
  providerKey := env.providerKey
  policyHash := s.policy.map (·.getHash)

/-- The replies to a call on a bus that hands over what the verifiers say it does. -/
def finalReplies (c : Call) (profile : TaskProfile) (value : DelegationResult)
    (verifiers : VerifierEnv) : List Reply :=
  let verified := runVerifiers verifiers c.taskId (Call.writtenFiles value) (some profile.language)
    (Call.writtenFiles value)
  (value.signals.filterMap DelegationSignal.toEvent?).map
      (fun event => .delivered (!verifiers.handsOver event.kind)) ++
    .startVerifiers verifiers :: (verified.map (fun _ => .delivered false) ++
      c.lastReplies verifiers.now)

/-- A call that nothing interrupts is finalized as `finalizeValue` does it at once. -/
theorem moves_finalReplies (hprofile : c.task.profile = some profile) (value : DelegationResult)
    (verifiers : VerifierEnv) :
    let args := finalizeArgs env s c profile.toTaskProfile value verifiers
    moves env (s, c.emit env value) (finalReplies c profile.toTaskProfile value verifiers) =
      ({ s with state := (finalizeValue s.state value args).1 },
        (c.emit env value).settle (.ok (some (finalizeValue s.state value args).2))) := by
  intro args
  let events := verifiers.emit (value.signals.filterMap DelegationSignal.toEvent?)
  let verified := runVerifiers verifiers c.taskId (Call.writtenFiles value) (some profile.language)
    (Call.writtenFiles value)
  let value' := { value with providerResolved := some env.providerKey }
  have hall : verified.filter (fun _ => true) = verified := List.filter_eq_self.mpr fun _ _ => rfl
  calc moves env (s, c.emit env value) (finalReplies c profile.toTaskProfile value verifiers)
      = moves env (s.deliverAll events, (c.emit env value).goto (.emitting value' []))
          (.startVerifiers verifiers :: (verified.map (fun _ => .delivered false) ++
            c.lastReplies verifiers.now)) :=
        moves_delivered (c := c.emit env value) (.emitting value') (fun _ _ _ _ => rfl)
          (fun event => verifiers.handsOver event.kind) s _ _
    _ = moves env (s.deliverAll events, (c.emit env value).startVerifiers value' verifiers)
          (verified.map (fun _ => .delivered false) ++ c.lastReplies verifiers.now) := rfl
    _ = moves env (s.deliverAll events, (c.emit env value).goto (.verifying value' verified))
          (verified.map (fun _ => .delivered false) ++ c.lastReplies verifiers.now) := by
        rw [startVerifiers_eq (c := c.emit env value) hprofile]
        rfl
    _ = moves env ((s.deliverAll events).deliverAll (verified.filter fun _ => true),
          (c.emit env value).goto (.verifying value' [])) (c.lastReplies verifiers.now) :=
        moves_delivered (c := c.emit env value) (.verifying value') (fun _ _ _ _ => rfl)
          (fun _ => true) (s.deliverAll events) verified _
    _ = moves env ((s.deliverAll events).deliverAll verified,
          (c.emit env value).goto (.verifying value' [])) (c.lastReplies verifiers.now) := by
        rw [hall]
    _ = (c.emit env value).finish ((s.deliverAll events).deliverAll verified)
          { value' with packet := some ((c.emit env value).packet
            ((s.deliverAll events).deliverAll verified) value' verifiers.now) } :=
        moves_lastReplies (c := c.emit env value) _ value' verifiers.now
    _ = _ := by
        have hreducer : (s.state.reducer.recordAll events).recordAll verified =
            s.state.reducer.recordAll (args.events value) := (List.foldl_append ..).symm
        have hverifiers : (c.emit env value).task.requiredVerifiers =
            some args.profile.verifierPolicy := requiredVerifiers_eq hprofile
        simp only [Call.finish, Call.packet, Shared.deliverAll, finalizeValue, hreducer, hverifiers]
        rfl

end Alone

/-! ### What is counted -/

section Counted

variable {env} {p : Processes.Pool Shared Call} {n : Nat}

/-- The results that have been delivered. -/
def results (p : Processes.Pool Shared Call) : List DelegationResult :=
  p.procs.filterMap Call.delivered

/-- A weight of what a call has delivered. -/
def Call.weight (weight : DelegationResult → Nat) (c : Call) : Nat := c.delivered.elim 0 weight

theorem sum_results (weight : DelegationResult → Nat) (calls : List Call) :
    (calls.map (Call.weight weight)).sum = ((calls.filterMap Call.delivered).map weight).sum := by
  induction calls with
  | nil => rfl
  | cons c calls ih =>
    rw [List.map_cons, List.sum_cons, ih, Call.weight, List.filterMap_cons]
    cases c.delivered with
    | none => exact Nat.zero_add _
    | some value => rfl

/-- A field of the statistics that grows by the weight of each result. -/
theorem tallied_step {field : OrchestratorStats → Nat} {weight : DelegationResult → Nat}
    (hfield : ∀ (s : Shared) (c : Call) (value : DelegationResult),
      field (c.finish s value).1.state.stats = field s.state.stats + weight value)
    (hsound : ∀ c ∈ p.procs, Sound env c)
    (h : field p.shared.state.stats = n + (p.procs.map (Call.weight weight)).sum)
    (input : Processes.Input Outside Request Reply) :
    field ((calls env).step p input).shared.state.stats =
      n + (((calls env).step p input).procs.map (Call.weight weight)).sum := by
  have hsum : field ((calls env).step p input).shared.state.stats =
      n + input.weight (fun _ => 0) +
        (((calls env).step p input).procs.map (Call.weight weight)).sum := by
    refine Processes.step_sum (f := fun s : Shared => field s.state.stats) (fun e => ?_)
      (fun r => ?_) ?_ h
    · cases e <;> rfl
    · exact congrArg (Option.elim · 0 weight) (underway_start env p.shared r).delivered
    · intro c hc reply
      obtain hsame | ⟨hnone, ⟨hstats, hnext⟩ | ⟨value, hfinish⟩⟩ :=
        move_cases (hsound c hc).1 (hsound c hc).2 (Eq.refl (move env p.shared c reply))
      · simp only [calls, hsame]
      · simp only [calls, Call.weight, hstats, hnone, hnext.delivered]
      · simp only [calls, Call.weight, hfinish, hfield, hnone]
        rfl
  rwa [Processes.Input.weight_zero, Nat.add_zero] at hsum

/-- The counters are ahead of where they started by the results that have been delivered and by
their tokens. -/
structure Counted (start : OrchestratorStats) (p : Processes.Pool Shared Call) : Prop where
  delegations : p.shared.state.stats.totalDelegations =
    start.totalDelegations + (results p).length
  tokens : p.shared.state.stats.totalTokens =
    start.totalTokens + ((results p).map (·.emission.totalTokens)).sum

theorem length_eq_sum (values : List DelegationResult) :
    values.length = (values.map fun _ => 1).sum := by simp

theorem counted_step {start : OrchestratorStats} (hsound : ∀ c ∈ p.procs, Sound env c)
    (h : Counted start p) (input : Processes.Input Outside Request Reply) :
    Counted start ((calls env).step p input) where
  delegations := by
    rw [results, length_eq_sum, ← sum_results]
    refine tallied_step (fun _ _ _ => rfl) hsound ?_ input
    rw [sum_results, ← length_eq_sum]
    exact h.delegations
  tokens := by
    rw [results, ← sum_results]
    refine tallied_step (fun _ _ _ => rfl) hsound ?_ input
    rw [sum_results]
    exact h.tokens

/-- However the calls interleave, the counters count each result that is delivered once, and nothing
else. -/
theorem delegations_counted (env : DelegateEnv) (s : Shared)
    (inputs : List (Processes.Input Outside Request Reply)) :
    Run.AllStates (calls env).step (Counted s.state.stats) ⟨s, []⟩ inputs := by
  have hrun : Run.AllStates (calls env).step
      (fun p => (∀ c ∈ p.procs, Sound env c) ∧ Counted s.state.stats p) ⟨s, []⟩ inputs :=
    Run.allStates_of_forall
      (fun p input h => ⟨sound_step h.1 input, counted_step h.1 h.2 input⟩)
      ⟨List.forall_mem_nil _, rfl, rfl⟩
  exact hrun.mono fun p h => h.2

end Counted

/-! ### What is written -/

section Contained

variable {env} {s : Shared} {c : Call} {disk : ArtifactDisk} {p : Processes.Pool Shared Call}

/-- The call goes on with the result of its mode, which gets a provider and a packet, and delivers
it, unless its language has no profile: then it throws. -/
def Call.GoesOnWith (c : Call) (value : DelegationResult) : Prop :=
  match c.phase with
  | .emitting v _ | .verifying v _ | .remembering v | .done (.ok (some v)) =>
    ∃ providerResolved packet, v = { value with providerResolved, packet }
  | .done (.threw message) => c.task.hasProfile = false ∧ Call.noLanguage = .threw message
  | _ => False

/-- The result of the call accounts for the file at a path. -/
def Reports (env : DelegateEnv) (disk : ArtifactDisk) (c : Call) (path : List (List Char))
    (file : Option (Nat × ByteArray)) : Prop :=
  ∃ value cwd, c.emitted = some value ∧ c.GoesOnWith value ∧ c.cwd = some cwd ∧
    value.Accounts env disk c.task cwd path file

/-- The names of the temporary files of an answer are unused. -/
def FreshReply (env : DelegateEnv) (s : Shared) (c : Call) (reply : Reply) : Prop :=
  match c.phase, reply with
  | .asking mode cwd, .answered (.ok emission) w =>
    FreshAnswer env c.task cwd w emission s.disk mode
  | _, _ => True

def Fresh (env : DelegateEnv) (p : Processes.Pool Shared Call) :
    Processes.Input Outside Request Reply → Prop
  | .move k reply => ∀ c, p.procs[k]? = some c → FreshReply env p.shared c reply
  | _ => True

/-- A file that is not as it was is part of the answer that a call has got, and the result of that
call accounts for it. -/
def Contained (env : DelegateEnv) (disk : ArtifactDisk) (p : Processes.Pool Shared Call) : Prop :=
  ∀ path, p.shared.disk.file? path ≠ disk.file? path →
    ∃ c ∈ p.procs, Reports env disk c path (p.shared.disk.file? path)

/-- A move leaves the disk or is the answer that a mode waits for. -/
theorem disk_move (env : DelegateEnv) (s : Shared) (c : Call) (reply : Reply) :
    (move env s c reply).1.disk = s.disk ∨ ∃ mode cwd emission w, c.phase = .asking mode cwd ∧
      reply = .answered (.ok emission) w ∧ move env s c reply = c.executed env s (mode.execute env
        cwd c.task.profile c.taskId w c.task.targetFile (.ok emission) s.disk) := by
  unfold move
  split
  · exact .inl rfl
  · next mode cwd result w hphase =>
    cases result with
    | ok emission => exact .inr ⟨mode, cwd, emission, w, hphase, rfl, rfl⟩
    | failed message => exact .inl (congrArg Prod.fst (execute_error ..))
    | threw message => exact .inl rfl
  · exact .inl rfl
  · next dropped _ => cases dropped <;> exact .inl rfl
  · exact .inl rfl
  · next dropped _ => cases dropped <;> exact .inl rfl
  · simp only [Call.verified]
    split <;> exact .inl rfl
  · exact .inl rfl
  · exact .inl rfl

/-- What a call has emitted stays, and it goes on with that. -/
theorem reports_move {path : List (List Char)} {file : Option (Nat × ByteArray)}
    (hreports : Reports env disk c path file) (s : Shared) (reply : Reply) :
    Reports env disk (move env s c reply).2 path file := by
  obtain ⟨value, cwd, hemitted, hgoes, haccounts⟩ := hreports
  have hkept := hgoes
  unfold Call.GoesOnWith at hgoes
  unfold move
  split
  · next hphase =>
    rw [hphase] at hgoes
    exact hgoes.elim
  · next hphase =>
    rw [hphase] at hgoes
    exact hgoes.elim
  · next hphase =>
    rw [hphase] at hgoes
    exact hgoes.elim
  · next hphase =>
    rw [hphase] at hgoes
    exact ⟨value, cwd, hemitted, hgoes, haccounts⟩
  · next hphase =>
    rw [hphase] at hgoes
    simp only [Call.startVerifiers]
    split
    · exact ⟨value, cwd, hemitted, hgoes, haccounts⟩
    · next hno => exact ⟨value, cwd, hemitted, ⟨Bool.eq_false_iff.mpr hno, rfl⟩, haccounts⟩
  · next hphase =>
    rw [hphase] at hgoes
    exact ⟨value, cwd, hemitted, hgoes, haccounts⟩
  · next hphase =>
    rw [hphase] at hgoes
    obtain ⟨providerResolved, packet, rfl⟩ := hgoes
    simp only [Call.verified]
    split <;> exact ⟨value, cwd, hemitted, ⟨_, _, rfl⟩, haccounts⟩
  · next hphase =>
    rw [hphase] at hgoes
    exact ⟨value, cwd, hemitted, hgoes, haccounts⟩
  · exact ⟨value, cwd, hemitted, hkept, haccounts⟩

/-- A file that was there is still there. -/
theorem isSome_of_accounted {path : List (List Char)} {file : Option (Nat × ByteArray)}
    (h : file = disk.file? path ∨ ∃ c ∈ p.procs, Reports env disk c path file)
    (hsome : (disk.file? path).isSome = true) : file.isSome = true := by
  obtain rfl | ⟨c, -, value, cwd, -, -, -, hwritten | hleft⟩ := h
  · exact hsome
  · obtain ⟨id, text, -, rfl⟩ := hwritten.contents
    rfl
  · obtain ⟨id, text, -, rfl⟩ := hleft.contents
    rfl

theorem executed_ok {result : ArtifactDisk × Except String DelegationResult}
    {value : DelegationResult} (h : result.2 = .ok value) :
    (c.executed env s result).2 = c.emit env value := by
  simp only [Call.executed, h]

theorem accounted_step (hsound : ∀ c ∈ p.procs, Sound env c)
    (h : Processes.Accounted (fun s : Shared => s.disk.file?) (Reports env disk) disk.file? p)
    {input : Processes.Input Outside Request Reply} (hfresh : Fresh env p input) :
    Processes.Accounted (fun s : Shared => s.disk.file?) (Reports env disk) disk.file?
      ((calls env).step p input) := by
  refine Processes.step_accounted ?_ (fun c _ reply path file hreports =>
    reports_move hreports p.shared reply) ?_ h
  · intro s e path
    cases e <;> rfl
  · rintro k reply c rfl hc path
    have hearly := (hsound c (List.mem_of_getElem? hc)).2
    have hreply := hfresh c hc
    obtain hsame | ⟨mode, cwd, emission, w, hphase, rfl, hmove⟩ := disk_move env p.shared c reply
    · exact .inl (congrArg (FileSystem.file? · path) hsame)
    · rw [Call.Early, hphase] at hearly
      simp only [FreshReply, hphase] at hreply
      obtain hsame | ⟨value, hvalue, haccounts⟩ := execute_writes c.taskId mode hreply path
      · left
        simp only [calls, hmove]
        exact hsame
      · right
        simp only [calls, hmove]
        rw [executed_ok hvalue]
        refine ⟨value, cwd, rfl, ⟨_, _, rfl⟩, hearly.2.2, ?_⟩
        obtain hwritten | hleft := haccounts
        · refine .inl ⟨hwritten.listed, hwritten.contents, fun hsome => ?_⟩
          exact hwritten.leave (isSome_of_accounted (h path) hsome)
        · refine .inr ⟨hleft.prompt, hleft.path, hleft.contents, ?_⟩
          by_contra hold
          have hsome : (p.shared.disk.file? path).isSome = true :=
            isSome_of_accounted (h path) (Option.isSome_iff_ne_none.mpr hold)
          rw [hleft.new] at hsome
          cases hsome

/-- However the calls interleave, and whatever becomes of the working directory, a file on disk
changes only as the part of an answer. -/
theorem delegations_contained (env : DelegateEnv) (s : Shared)
    (inputs : List (Processes.Input Outside Request Reply))
    (hfresh : Run.AllSteps (calls env).step (Fresh env) ⟨s, []⟩ inputs) :
    Run.AllStates (calls env).step (Contained env s.disk) ⟨s, []⟩ inputs := by
  have hrun : Run.AllStates (calls env).step (fun p => (∀ c ∈ p.procs, Sound env c) ∧
      Processes.Accounted (fun s : Shared => s.disk.file?) (Reports env s.disk) s.disk.file? p)
      ⟨s, []⟩ inputs := by
    refine Run.allStates_of_invariant (fun p input h hok => ?_)
      ⟨List.forall_mem_nil _, fun path => .inl rfl⟩ hfresh
    exact ⟨sound_step h.1 input, accounted_step h.1 h.2 hok⟩
  exact hrun.mono fun p h path hne => (h.2 path).resolve_left hne

/-! ### A run in which a file is written -/

/-- One provider, and texts that are their own hashes. -/
def promptEnv : DelegateEnv where
  modelConfig := {
    providers := (∅ : OrderedMap String ModelProviderConfig).set "local" ⟨"openai", "coder"⟩
    defaultProvider := "local" }
  providerKey := "local"
  decomposeProvider := "local"
  artifact := {
    allowLegacyJsonlContent := false
    allowMarkerArtifactFallback := false
    sha256Of := id
    numberText := fun _ => "" }
  sha256 := fun _ => ""
  syntaxMessage := id
  conversionMessage := id

def promptShared : Shared where
  policy := none
  shuttingDown := false
  cwd := AbsPath.root.resolve "/work"
  state := .empty
  disk := FileSystem.onlyDirs ["work".toList]

def promptAnswer : AgentEmission where
  agentId := "agent-task-0"
  content := "```ts\nx\n```"
  promptTokens := 1
  completionTokens := 1
  totalTokens := 2
  model := "coder"
  format := .hardPrompt

/-- The working directory changes while the model is asked. -/
def promptInputs : List (Processes.Input Outside Request Reply) := [
  .start {
    task := { description := "x", modeOverride := some .hardPrompt, language := some "typescript" }
    now := 0
    classified := ⟨.artifact, "", true⟩ },
  .move 0 (.recalled none),
  .outside (.chdir AbsPath.root),
  .move 0 (.answered (.ok promptAnswer)
    ⟨fun _ => ⟨0, "00000000", "", true, none⟩, fun _ => true, ""⟩)]

theorem fresh_promptInputs :
    Run.AllSteps (calls promptEnv).step (Fresh promptEnv) ⟨promptShared, []⟩ promptInputs := by
  refine ⟨trivial, fun c hc => ?_, trivial, fun c hc => ?_, trivial⟩
  · obtain rfl := Option.some.inj hc
    trivial
  · obtain rfl := Option.some.inj hc
    intro htruncated
    have hblocks : blockIndices none (codeBlocks promptAnswer.content) = [("x", 0)] := by decide
    refine (congrArg (FreshBlocks _ _ _ _ _ _ _) hblocks).mpr ⟨fun _ => ?_, trivial⟩
    decide

/-- The answer is written below the directory that was the working directory. -/
theorem delegations_contained_prompt :
    Run.AllStates (calls promptEnv).step (Contained promptEnv promptShared.disk)
        ⟨promptShared, []⟩ promptInputs ∧
      ((Run.run (calls promptEnv).step ⟨promptShared, []⟩ promptInputs).shared.disk.file?
        ["work".toList, "output.ts".toList]).isSome = true :=
  ⟨delegations_contained _ _ _ fresh_promptInputs, by decide⟩

end Contained

end Delegate

end KirkForge
