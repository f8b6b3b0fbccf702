import KirkForge.Orchestrator.FailClosed
import KirkForge.Orchestrator.OwnSignals
import KirkForge.ToolLintCore.LintReport

/-!
# What a verdict says about lint findings

`createVerificationEmitters` (`orchestrator/src/emitter-factory.ts`) takes one lint engine for a
language and runs it twice, as the lint and as the security verifier, beside the others. Whatever
the order in which the events are delivered and whichever of them the bus drops, as long as one lint
event arrives a packet passes only if every candidate of every scanned file is suppressed, and fails
if one of an error is not (`lint_verdict`).
-/

namespace KirkForge

open Lint

/-! ### The choice of the engine -/

inductive LintTool
  | ts | py | sh | c | rs | go | sql
  deriving DecidableEq

def LintTool.extensions : LintTool → List String
  | ts => [".ts", ".tsx", ".js", ".jsx", ".mjs", ".cjs", ".mts", ".cts"]
  | py => [".py", ".pyi", ".pyx"]
  | sh => [".sh", ".bash", ".zsh"]
  | c => [".c", ".cc", ".cpp", ".cxx", ".h", ".hpp", ".hxx"]
  | rs => [".rs"]
  | go => [".go"]
  | sql => [".sql"]

/-- `/\.(?:[cm]?js|jsx|ts|tsx)$/` on some file -/
def hasJsTs (files : Option (List String)) : Bool :=
  (files.getD []).any fun file =>
    [".js", ".cjs", ".mjs", ".jsx", ".ts", ".tsx"].any fun extension =>
      extension.toList <:+ file.toList

def resolvedLint (files : Option (List String)) (language : Option TaskLanguage) : LintTool :=
  let pythonOnly := language = some .python || (language = none && !hasJsTs files)
  match language with
  | some .shell => .sh
  | some .c | some .cpp => .c
  | some .rust => .rs
  | some .go => .go
  | some .sql => .sql
  | some .text => .ts
  | _ => if pythonOnly then .py else .ts

/-- The directory of the orchestrator as the engines see it, and the rules of each. -/
structure LintSetup where
  cwd : AbsPath
  host : LintHost
  rules : LintTool → List LintRule

def LintSetup.engine (setup : LintSetup) (files : Option (List String))
    (language : Option TaskLanguage) : LintEngine where
  cwd := setup.cwd
  rules := setup.rules (resolvedLint files language)
  files
  extensions := (resolvedLint files language).extensions

/-- An event as the reducer records it. -/
def Lint.EngineEvent.signal : EngineEvent → ReducerSignal
  | lint event => {
      taskId := event.taskId, timestamp := event.timestamp
      value := .verifyLint {
        status := some event.status, error := event.error, errors := event.errors
        warnings := event.warnings, suppressed := some event.suppressed } }
  | security event => {
      taskId := event.taskId, timestamp := event.timestamp
      value := .verifySecurity {
        status := some event.status, error := event.error, findings := event.findings
        critical := event.critical, high := event.high } }

/-- The lint and security events that are delivered come from the engine of the files and the
language, from one run of it or the other. -/
def LintSetup.Publishes (setup : LintSetup) (env : VerifierEnv) : Prop :=
  ∀ taskId files language writtenFiles,
    ∀ signal ∈ env.emitted taskId files language writtenFiles,
      signal.kind = .verifyLint ∨ signal.kind = .verifySecurity →
        ∃ lintEnv, ∃ event ∈ ((setup.engine files language).emit setup.host lintEnv taskId).events,
          signal = event.signal

/-- Verifiers of which one run of the engine is heard. -/
def LintSetup.verifiers (setup : LintSetup) : VerifierEnv where
  execFile _ _ := true
  emitted taskId files language _ :=
    ((setup.engine files language).emit setup.host ⟨1, "", some fun _ => none⟩ taskId).events.map
      EngineEvent.signal
  now := ""

theorem LintSetup.publishes_verifiers (setup : LintSetup) : setup.Publishes setup.verifiers := by
  intro taskId files language writtenFiles signal hsignal _
  obtain ⟨event, hevent, rfl⟩ := List.mem_map.mp hsignal
  exact ⟨_, event, hevent, rfl⟩

theorem LintSetup.delivered_verifiers (setup : LintSetup) (taskId : String)
    (files : Option (List String)) (language : Option TaskLanguage)
    (writtenFiles : Option (List String)) :
    recorded (setup.verifiers.emitted taskId files language writtenFiles) taskId .verifyLint ≠
      [] := by
  let env : LintEnv := ⟨1, "", some fun _ => none⟩
  let engine := setup.engine files language
  have haccepts : env.Accepts := by
    rintro _ ⟨⟩ event
    rfl
  obtain ⟨-, hevents⟩ := (LintEngine.emit_spec engine setup.host env taskId).2 _
    (LintEngine.result_of_accepts engine setup.host haccepts)
  have hmem : (engine.report setup.host env taskId).event env ∈
      (engine.emit setup.host env taskId).events := by
    rw [hevents]
    exact List.mem_cons_self
  exact List.ne_nil_of_mem (mem_recorded.mpr ⟨List.mem_map_of_mem hmem, rfl, rfl⟩)

/-! ### Calls -/

namespace Call

def env : Call → VerifierEnv
  | delegate call => call.args.env
  | verify _ _ _ env _ => env

def taskId : Call → String
  | delegate call => call.args.taskId
  | verify taskId .. => taskId

/-- The files that the verifiers are handed. -/
def files : Call → Option (List String)
  | delegate call => some (call.result.toOption.elim [] extractWrittenFiles)
  | verify _ _ files _ _ => files

def writtenFiles (call : Call) : Option (List String) :=
  match call with
  | delegate _ => call.files
  | verify .. => none

def language : Call → Option TaskLanguage
  | delegate call => some call.args.profile.language
  | verify _ description .. => some (detectTaskProfile description).language

/-- The packet of the call, unless the delegation has failed. -/
def packet (s : DelegationState) : Call → Option ReducedStatePacket
  | delegate call => call.packet s
  | verify taskId description files env policyHash =>
    some (KirkForge.verify s taskId description files env policyHash).2

end Call

/-! ### The last lint event -/

variable {setup : LintSetup} {env : VerifierEnv} {taskId : String} {files : Option (List String)}
  {language : Option TaskLanguage} {writtenFiles : Option (List String)} {h : List ReducerSignal}

/-- A lint event says that there was an error, or counts the findings. -/
theorem signal_lint {engine : LintEngine} {host : LintHost} {lintEnv : LintEnv}
    {event : EngineEvent} (hevent : event ∈ (engine.emit host lintEnv taskId).events)
    (hkind : event.signal.kind = .verifyLint) :
    ∃ v, event.signal.value = .verifyLint v ∧ (v.status = some .error ∨
      v.errors = (engine.run host).findings.countP (·.severity.isError) ∧
        v.warnings = (engine.run host).findings.countP (·.severity.isWarning)) := by
  cases event with
  | security event => cases hkind
  | lint event =>
    refine ⟨_, rfl, ?_⟩
    rcases (LintEngine.emit_spec engine host lintEnv taskId).1 _ hevent with hregular | herror
    · right
      rcases List.mem_cons.mp hregular with heq | hmem
      · cases heq
        exact ⟨List.countP_eq_length_filter.symm, List.countP_eq_length_filter.symm⟩
      · cases List.mem_singleton.mp hmem
    · exact .inl (congrArg some herror)

theorem lastSignal_lint (hpublishes : setup.Publishes env)
    (hdelivered : recorded (env.emitted taskId files language writtenFiles) taskId .verifyLint ≠ []) :
    ∃ v, lastSignal (h ++ runVerifiers env taskId files language writtenFiles) taskId .verifyLint =
        some (.verifyLint v) ∧ (v.status = some .error ∨
      v.errors = ((setup.engine files language).run setup.host).findings.countP
          (·.severity.isError) ∧
        v.warnings = ((setup.engine files language).run setup.host).findings.countP
          (·.severity.isWarning)) := by
  have hlast : lastSignal (h ++ runVerifiers env taskId files language writtenFiles) taskId
      .verifyLint = lastSignal (env.emitted taskId files language writtenFiles) taskId
        .verifyLint := by
    rw [runVerifiers.eq_def, ← List.append_assoc, lastSignal_append_of_recorded hdelivered]
  have hsignal := List.getLast?_eq_some_getLast hdelivered
  generalize (recorded _ taskId .verifyLint).getLast hdelivered = signal at hsignal
  obtain ⟨hmem, -, hkind⟩ := mem_recorded.mp (List.mem_of_getLast? hsignal)
  obtain ⟨lintEnv, event, hevent, rfl⟩ := hpublishes _ _ _ _ signal hmem (.inl hkind)
  obtain ⟨v, hv, hcounts⟩ := signal_lint hevent hkind
  refine ⟨v, ?_, hcounts⟩
  rw [hlast, lastSignal, hsignal, Option.map_some, hv]

/-! ### What the engine looks at -/

/-- The files that the engine reads, by their paths from the directory. -/
def LintSetup.InScope (setup : LintSetup) (files : Option (List String))
    (extensions : List String) (rel : String) : Prop :=
  match files with
  | some files => ∃ file ∈ files, extension file ∈ extensions ∧
      rel = setup.cwd.relative (setup.cwd.resolve file)
  | none => extension rel ∈ extensions ∧
      ∃ e ∈ setup.host.tree.entries.files, Walked e ∧ rel = relPath e.1

/-- A candidate of a file in scope that no directive suppresses. -/
def LintSetup.Found (setup : LintSetup) (files : Option (List String))
    (language : Option TaskLanguage) (f : LintFinding) : Prop :=
  let tool := resolvedLint files language
  ∃ rel content, setup.InScope files tool.extensions rel ∧
    setup.host.readFile (setup.cwd.resolve rel) = some content ∧
    ∃ c ∈ candidates (setup.rules tool) rel content,
      c.suppressed (Text.split '\n' content) = false ∧ c.finding = f

theorem mem_allFiles_engine {rel : String} :
    rel ∈ (setup.engine files language).allFiles setup.host ↔
      setup.InScope files (resolvedLint files language).extensions rel := by
  rw [LintEngine.allFiles, LintSetup.InScope.eq_def]
  cases files with
  | none =>
    show rel ∈ walkFiles .. ↔ _
    rw [mem_walkFiles]
    constructor
    · rintro ⟨e, he, hwalked, hrel, hextension⟩
      exact ⟨of_decide_eq_true hextension, e, he, hwalked, hrel⟩
    · rintro ⟨hextension, e, he, hwalked, hrel⟩
      exact ⟨e, he, hwalked, hrel, decide_eq_true hextension⟩
  | some files =>
    simp only [LintSetup.engine, List.mem_map, List.mem_filter, LintEngine.includeFilter,
      decide_eq_true_eq, and_assoc, @eq_comm _ rel]

theorem mem_findings_engine {f : LintFinding} :
    f ∈ ((setup.engine files language).run setup.host).findings ↔
      setup.Found files language f := by
  rw [LintEngine.mem_findings, LintSetup.Found]
  constructor
  · rintro ⟨⟨rel, content⟩, hscanned, hfound⟩
    obtain ⟨hrel, -, hread⟩ := LintEngine.mem_scanned.mp hscanned
    exact ⟨rel, content, mem_allFiles_engine.mp hrel, hread, hfound⟩
  · rintro ⟨rel, content, hscope, hread, hfound⟩
    refine ⟨(rel, content), LintEngine.mem_scanned.mpr ⟨?_, rfl, hread⟩, hfound⟩
    exact mem_allFiles_engine.mpr hscope

/-! ### The verdict -/

theorem slotsOverall_warnings_of_pass {l : LintSlot} {ty : TypesSlot} {s : SecuritySlot}
    {g : GraphSlot} {gp : SlotPolicy} {ae : Option ArtifactEnforcement}
    (hpass : SignalMap.slotsOverall l ty s g gp ae = .pass) : l.warnings = 0 := by
  refine Nat.eq_zero_of_not_pos fun hpos => ?_
  simp only [SignalMap.slotsOverall, decide_eq_true hpos, Bool.true_or, if_true] at hpass
  split at hpass <;> cases hpass

/-- A packet with a pass has no warning in its last lint event. -/
theorem Represents.warnings_of_pass {r : StateReducer} (H : Represents r h) {turn : Nat}
    {policy : VerifierPolicy} {policyHash : Option String} {now : String}
    (hpass : (r.reduce taskId turn (some policy) policyHash now).verification.overall = .pass)
    {v : VerifyLintValue} (hv : lastSignal h taskId .verifyLint = some (.verifyLint v)) :
    v.warnings = 0 := by
  have hlint : (r.signalsOf taskId).lintS = some v := by
    rw [SignalMap.lintS, H.get, hv]
  have hbase := hpass
  simp only [StateReducer.reduce, SignalMap.reduce, SignalMap.overall] at hbase
  split at hbase
  · cases hbase
  · have hwarnings := slotsOverall_warnings_of_pass hbase
    rwa [SignalMap.lint, hlint] at hwarnings

/-- A packet with a pass leaves nothing unsuppressed, and what is found of an error fails it. -/
structure LintSetup.Judged (setup : LintSetup) (files : Option (List String))
    (language : Option TaskLanguage) (packet : ReducedStatePacket) : Prop where
  pass : packet.verification.overall = .pass → ∀ f, ¬setup.Found files language f
  fail {f} : setup.Found files language f → f.severity.isError = true →
    packet.verification.overall = .fail

/-- With one lint event delivered the packet is judged by what the engine finds. -/
theorem Represents.judged {r : StateReducer} (H : Represents r h)
    (hpublishes : setup.Publishes env)
    (hdelivered : recorded (env.emitted taskId files language writtenFiles) taskId .verifyLint ≠ [])
    (turn : Nat) (policy : VerifierPolicy) (policyHash : Option String) (now : String) :
    setup.Judged files language
      ((r.recordAll (runVerifiers env taskId files language writtenFiles)).reduce taskId turn
        (some policy) policyHash now) := by
  have H' := H.recordAll (runVerifiers env taskId files language writtenFiles)
  obtain ⟨v, hv, hcounts⟩ := lastSignal_lint (h := h) hpublishes hdelivered
  have hfail := overall_eq_fail_iff (t := taskId) H' turn policy policyHash now
  have hcrashed (hstatus : v.status = some .error) := by
    refine hfail.mpr (.crashed .lint (by decide) (.inr ?_))
    rw [lastStatus, slotToSignal, hv]
    exact congrArg some hstatus
  have herrors {f : LintFinding} (hf : setup.Found files language f)
      (hseverity : f.severity.isError = true) := by
    refine hfail.mpr ?_
    rcases hcounts with hstatus | ⟨herror, -⟩
    · exact hfail.mp (hcrashed hstatus)
    · refine .lint hv ?_
      rw [herror]
      exact List.countP_pos_iff.mpr ⟨f, mem_findings_engine.mpr hf, hseverity⟩
  refine ⟨fun hpass f hf => ?_, herrors⟩
  cases hseverity : f.severity.isError with
  | true => cases hpass.symm.trans (herrors hf hseverity)
  | false =>
    rcases hcounts with hstatus | ⟨-, hwarning⟩
    · cases hpass.symm.trans (hcrashed hstatus)
    · have hzero := H'.warnings_of_pass hpass hv
      rw [hwarning, List.countP_eq_zero] at hzero
      refine hzero f (mem_findings_engine.mpr hf) ?_
      rw [Severity.isWarning_eq, hseverity]
      rfl

/-! ### Runs of calls -/

/-- The verifiers of the call see the directory so, and one lint event of theirs arrives. -/
structure LintSetup.Serves (setup : LintSetup) (call : Call) : Prop where
  publishes : setup.Publishes call.env
  delivered : recorded (call.env.emitted call.taskId call.files call.language call.writtenFiles)
    call.taskId .verifyLint ≠ []

theorem emptyEmissionOverride_overall (mode : DelegationMode) (packet : ReducedStatePacket) :
    (emptyEmissionOverride mode packet).verification.overall = packet.verification.overall ∨
      (emptyEmissionOverride mode packet).verification.overall = .fail := by
  rw [emptyEmissionOverride]
  split
  · exact .inr rfl
  · split
    · exact .inr rfl
    · exact .inl rfl

theorem Represents.judged_call {s : DelegationState} (H : Represents s.reducer h) {call : Call}
    (hserves : setup.Serves call) {packet : ReducedStatePacket}
    (hpacket : call.packet s = some packet) :
    setup.Judged call.files call.language packet := by
  have hverdict {r : StateReducer} {h : List ReducerSignal} (H : Represents r h) :=
    H.judged hserves.publishes hserves.delivered
  cases call with
  | verify taskId description files env policyHash =>
    obtain rfl := Option.some.inj hpacket
    exact hverdict H 0 (detectTaskProfile description).verifierPolicy policyHash env.now
  | delegate call =>
    obtain ⟨result, args⟩ := call
    cases result with
    | error message => cases hpacket
    | ok value =>
      obtain rfl := Option.some.inj hpacket
      -- the artifact signals come in front of the events of the verifiers
      have hjudged := hverdict
        (H.recordAll (args.env.emit (value.signals.filterMap DelegationSignal.toEvent?))) 0
        args.profile.verifierPolicy args.policyHash args.env.now
      rw [StateReducer.recordAll, StateReducer.recordAll, ← List.foldl_append] at hjudged
      refine ⟨fun h => hjudged.pass ?_, fun hfound herror => ?_⟩
      · rcases emptyEmissionOverride_overall args.mode _ with heq | heq
        · exact heq.symm.trans h
        · exact absurd (h.symm.trans heq) nofun
      · rcases emptyEmissionOverride_overall args.mode _ with heq | heq
        · exact heq.trans (hjudged.fail hfound herror)
        · exact heq

/-- In every run of calls, whatever the files are at each of them. -/
theorem lint_verdict (calls : List Call) :
    Run.AllSteps Call.step (fun s call => ∀ (setup : LintSetup) packet, setup.Serves call →
      call.packet s = some packet → setup.Judged call.files call.language packet) .empty calls :=
  Run.allSteps_of_forall (I := fun s => ∃ h, Represents s.reducer h)
    (fun _ call H => exists_represents_step H call)
    (fun _ _ ⟨_, H⟩ _ _ hserves hpacket => H.judged_call hserves hpacket) ⟨[], Represents.empty⟩

end KirkForge
