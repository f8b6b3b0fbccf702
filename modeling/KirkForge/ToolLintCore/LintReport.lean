import KirkForge.CoreTypes.Events
import KirkForge.Theory.FileTree
import KirkForge.Theory.Regex
import KirkForge.Theory.RelativePath
import KirkForge.ToolLintCore.Suppression

/-!
# Reports of the lint engine

`LintEngine.emit` (`tool-lint-core/src/engine.ts`) and the walk that it starts from when it is given
no files (`core-logging/src/fs-walk.ts`). Every candidate of a file that is scanned and can be read
is reported once or counted as suppressed, errors in front of warnings, and no event says that all
is well when there is an error that is not suppressed, however the event bus answers
(`lint_reported`).
-/

namespace KirkForge.Lint

/-! ### Walking a directory -/

/-- A directory as `readdir` shows it, with whether an entry that is no directory is a file. One
that cannot be read has no entries. -/
structure WalkedTree where
  entries : Directory Bool
  plain : entries.EveryName fun name => Path.IsSegment name.val.toList

def isNoise (name : FileName) : Bool :=
  name.val ∈ ["node_modules", ".git", "dist", ".tsbuildinfo"]

def visit (includes : String → Bool) (cwd dir : AbsPath) : Directory Bool → List String
  | .nil => []
  | .file name isFile rest =>
    let rel := cwd.relative (dir.resolve name.val)
    (if isNoise name then [] else if isFile && includes rel then [rel] else []) ++
      visit includes cwd dir rest
  | .dir name children rest =>
    (if isNoise name then [] else visit includes cwd (dir.resolve name.val) children) ++
      visit includes cwd dir rest

def walkFiles (cwd : AbsPath) (includes : String → Bool) (tree : WalkedTree) : List String :=
  visit includes cwd cwd tree.entries

/-- The names of a path with slashes between them. -/
def relPath (names : List FileName) : String :=
  String.ofList (['/'].intercalate (names.map (·.val.toList)))

/-- A file of the tree that is not below an entry to be left out, and is none itself. -/
def Walked (e : List FileName × Bool) : Prop := e.2 = true ∧ ∀ name ∈ e.1, isNoise name = false

instance (e : List FileName × Bool) : Decidable (Walked e) :=
  inferInstanceAs (Decidable (_ ∧ _))

theorem segments_resolve_name {cwd dir : AbsPath} {front : List FileName} {name : FileName}
    (hdir : dir.segments = cwd.segments ++ front.map (·.val.toList))
    (h : Path.IsSegment name.val.toList) :
    (dir.resolve name.val).segments = cwd.segments ++ (front ++ [name]).map (·.val.toList) := by
  have hname : String.ofList (['/'].intercalate [name.val.toList]) = name.val := by simp
  have hsegments := dir.segments_resolve_intercalate (List.cons_ne_nil name.val.toList [])
    (List.forall_mem_singleton.mpr h)
  rw [hname] at hsegments
  rw [hsegments, hdir, List.append_assoc, List.map_append]
  rfl

theorem relative_eq_relPath {cwd p : AbsPath} {names : List FileName} (hne : names ≠ [])
    (h : p.segments = cwd.segments ++ names.map (·.val.toList)) :
    cwd.relative p = relPath names := by
  obtain ⟨name, names, rfl⟩ := List.exists_cons_of_ne_nil hne
  exact AbsPath.relative_of_inside h

/-- From the directory down `front` on, the walk finds the visible files that are asked for. -/
theorem visit_eq (includes : String → Bool) {cwd dir : AbsPath} {front : List FileName}
    {tree : Directory Bool} (hplain : tree.EveryName fun name => Path.IsSegment name.val.toList)
    (hdir : dir.segments = cwd.segments ++ front.map (·.val.toList)) :
    visit includes cwd dir tree =
      ((tree.files.filter (Walked ·)).map fun e => relPath (front ++ e.1)).filter includes := by
  induction tree generalizing dir front with
  | nil => rfl
  | file name isFile rest ih =>
    obtain ⟨hname, hrest⟩ := hplain
    have hrel : cwd.relative (dir.resolve name.val) = relPath (front ++ [name]) :=
      relative_eq_relPath (by simp) (segments_resolve_name hdir hname)
    rw [visit, ih hrest hdir, Directory.files, List.filter_cons]
    cases hnoise : isNoise name <;> cases isFile <;>
      simp [Walked, hnoise, hrel, List.filter_cons]
    split <;> rfl
  | dir name children rest ihChildren ih =>
    obtain ⟨hname, hchildren, hrest⟩ := hplain
    rw [visit, ih hrest hdir, Directory.files, List.filter_append, List.map_append,
      List.filter_append]
    congr 1
    cases hnoise : isNoise name with
    | true =>
      have hnone : (children.files.map fun f => (name :: f.1, f.2)).filter (Walked ·) = [] := by
        simp [List.filter_eq_nil_iff, Walked, hnoise]
      rw [if_pos rfl, hnone]
      rfl
    | false =>
      have hwalked (f : List FileName × Bool) : Walked (name :: f.1, f.2) ↔ Walked f := by
        simp [Walked, hnoise]
      rw [if_neg Bool.false_ne_true, ihChildren hchildren (segments_resolve_name hdir hname)]
      simp only [List.filter_map, Function.comp_def, hwalked, List.map_map, List.append_assoc,
        List.singleton_append]

theorem mem_walkFiles {cwd : AbsPath} {includes : String → Bool} {tree : WalkedTree}
    {rel : String} : rel ∈ walkFiles cwd includes tree ↔
      ∃ e ∈ tree.entries.files, Walked e ∧ rel = relPath e.1 ∧ includes rel = true := by
  have hroot : cwd.segments = cwd.segments ++ ([] : List FileName).map (·.val.toList) := by simp
  rw [walkFiles, visit_eq includes tree.plain hroot, List.mem_filter]
  simp only [List.mem_map, List.mem_filter, decide_eq_true_eq, List.nil_append]
  constructor
  · rintro ⟨⟨e, ⟨he, hwalked⟩, rfl⟩, hincludes⟩
    exact ⟨e, he, hwalked, rfl, hincludes⟩
  · rintro ⟨e, he, hwalked, rfl, hincludes⟩
    exact ⟨⟨e, ⟨he, hwalked⟩, rfl⟩, hincludes⟩

/-! ### The engine -/

/-- The directory of the engine and the texts that `readFile` gives. -/
structure LintHost where
  tree : WalkedTree
  readFile : AbsPath → Option String

structure LintEngine where
  cwd : AbsPath
  rules : List LintRule
  files : Option (List String) := none
  extensions : List String
  ignorePatterns : List String := []

/-- The expression between `^` and `$`, where `.` is a code unit that ends no line. -/
def glob (pattern : String) : Regex.Units :=
  let dot : Nat → Bool := fun u => !Pattern.isLineTerminator (Char.ofNat u)
  .concat ((Text.utf16 pattern).map fun u =>
    if u = '*'.toNat then .star true (.set dot)
    else if u = '?'.toNat then .set dot
    else .set (· = u))

/-- `/^r$/.test(s)` -/
def testWhole (r : Regex.Units) (s : String) : Bool :=
  (Regex.run Regex.isWord r { prev := none, rest := Text.utf16 s } fun c =>
    if c.rest = [] then some c else none).isSome

def matchIgnorePattern (relPath : String) (patterns : List String) : Bool :=
  patterns.any fun pattern =>
    testWhole (glob pattern) relPath ||
      (pattern.toList.getLast? = some '/' && Text.includes relPath pattern)

example : matchIgnorePattern "src/a.test.ts" ["*.test.ts"] ∧
    matchIgnorePattern "pkg/tests/a.ts" ["tests/"] ∧
    matchIgnorePattern "src/ab.ts" ["src/?.ts"] = false := by decide

def Severity.isError : Severity → Bool
  | critical | high | med => true
  | low | info => false

def Severity.isWarning : Severity → Bool
  | low | info => true
  | critical | high | med => false

theorem Severity.isWarning_eq (s : Severity) : s.isWarning = !s.isError := by
  cases s <;> rfl

structure LintDetail where
  file : String
  line : Nat
  rule : String
  message : String
  deriving DecidableEq

def LintFinding.detail (f : LintFinding) : LintDetail where
  file := f.file
  line := f.line
  rule := f.rule
  message := f.message

structure LintReport where
  source : String
  status : VerifierStatus
  errors : Nat
  warnings : Nat
  suppressed : Nat
  filesScanned : Nat
  durationMs : Nat
  details : List LintDetail
  deriving DecidableEq

/-- A `verify.lint` event; its stream is the task. -/
structure LintEvent where
  taskId : String
  status : VerifierStatus
  error : Option String := none
  errors : Nat
  warnings : Nat
  suppressed : Nat
  filesScanned : Nat
  durationMs : Nat
  details : List LintDetail
  timestamp : String
  deriving DecidableEq

/-- A `verify.security` event. -/
structure SecurityEvent where
  taskId : String
  status : VerifierStatus
  error : Option String := none
  findings : Nat
  critical : Nat
  high : Nat
  filesScanned : Nat
  durationMs : Nat
  details : List (LintDetail × Severity)
  timestamp : String
  deriving DecidableEq

inductive EngineEvent
  | lint (event : LintEvent)
  | security (event : SecurityEvent)
  deriving DecidableEq

/-- The surroundings of an emission: the time that it takes, the time of day, and the event bus, if
there is one, by the message of the error with which it rejects an event. -/
structure LintEnv where
  elapsedMs : Nat
  now : String
  eventBus : Option (EngineEvent → Option String)

/-- The events that the bus was given, and what the promise of `emit` is settled to: an error of the
outer kind rejects it. -/
structure LintEmission where
  events : List EngineEvent
  result : Except String (Except String LintReport)

/-- `await eventBus?.emit(event)`, after the events before. -/
def LintEnv.publish (env : LintEnv) (sent : List EngineEvent) (event : EngineEvent) :
    List EngineEvent × Except String Unit :=
  match env.eventBus with
  | none => (sent, .ok ())
  | some rejects =>
    (sent ++ [event], match rejects event with
      | some message => .error message
      | none => .ok ())

/-- A bus that accepts every event, or none at all. -/
def LintEnv.Accepts (env : LintEnv) : Prop :=
  ∀ rejects, env.eventBus = some rejects → ∀ event, rejects event = none

def LintReport.event (r : LintReport) (env : LintEnv) (error : Option String := none) :
    EngineEvent :=
  .lint {
    taskId := r.source, status := r.status, error, errors := r.errors, warnings := r.warnings
    suppressed := r.suppressed, filesScanned := r.filesScanned, durationMs := r.durationMs
    details := r.details, timestamp := env.now }

def EngineEvent.status : EngineEvent → VerifierStatus
  | lint event => event.status
  | security event => event.status

/-- A finding with which the event may not say that all is well. -/
def EngineEvent.Concerns (f : LintFinding) : EngineEvent → Prop
  | lint _ => f.severity.isError = true
  | security _ => f.category = .safety ∧ (f.severity = .critical ∨ f.severity = .high)

namespace LintEngine

variable (engine : LintEngine) (host : LintHost)

def includeFilter (rel : String) : Bool := extension rel ∈ engine.extensions

def allFiles : List String :=
  match engine.files with
  | some files =>
    (files.filter engine.includeFilter).map fun f => engine.cwd.relative (engine.cwd.resolve f)
  | none => walkFiles engine.cwd engine.includeFilter host.tree

/-- The body of the loop over the files. -/
def lintNext (run : LintRun) (relPath : String) : LintRun :=
  if matchIgnorePattern relPath engine.ignorePatterns then run
  else
    match host.readFile (engine.cwd.resolve relPath) with
    | none => run
    | some content => lintFile engine.rules run relPath content

def run : LintRun := (engine.allFiles host).foldl (engine.lintNext host) {}

def report (env : LintEnv) (taskId : String) : LintReport :=
  let findings := (engine.run host).findings
  let errorFindings := findings.filter (·.severity.isError)
  let warningFindings := findings.filter (·.severity.isWarning)
  { source := taskId
    status := if 0 < errorFindings.length then .fail else .pass
    errors := errorFindings.length
    warnings := warningFindings.length
    suppressed := (engine.run host).suppressedCount
    filesScanned := (engine.allFiles host).length
    durationMs := env.elapsedMs
    details := (errorFindings ++ warningFindings).map (·.detail) }

def securityEvent (env : LintEnv) (taskId : String) : SecurityEvent :=
  let safetyFindings := (engine.run host).findings.filter (·.category = .safety)
  let critical := safetyFindings.countP (·.severity = .critical)
  let high := safetyFindings.countP (·.severity = .high)
  { taskId
    status := if 0 < critical ∨ 0 < high then .fail else .pass
    findings := safetyFindings.length
    critical
    high
    filesScanned := (engine.allFiles host).length
    durationMs := env.elapsedMs
    details := safetyFindings.map fun f => (f.detail, f.severity)
    timestamp := env.now }

/-- The report of the `catch` block. -/
def failedReport (env : LintEnv) (taskId message : String) : LintReport where
  source := taskId
  status := .error
  errors := 1
  warnings := 0
  suppressed := 0
  filesScanned := 0
  durationMs := env.elapsedMs
  details := [{ file := "<lint-engine>", line := 0, rule := "verifier-error", message }]

def failedSecurity (env : LintEnv) (taskId message : String) : SecurityEvent where
  taskId
  status := .error
  error := some message
  findings := 1
  critical := 1
  high := 0
  filesScanned := 0
  durationMs := env.elapsedMs
  details := []
  timestamp := env.now

/-- The `catch` block. -/
def failed (env : LintEnv) (taskId : String) (sent : List EngineEvent) (message : String) :
    LintEmission :=
  match env.publish sent ((failedReport env taskId message).event env (some message)) with
  | (sent, .error rejection) => { events := sent, result := .error rejection }
  | (sent, .ok ()) =>
    let (events, outcome) := env.publish sent (.security (failedSecurity env taskId message))
    { events, result := outcome.map fun _ => .error ("kirkforge-lint: " ++ message) }

def emit (env : LintEnv) (taskId : String) : LintEmission :=
  let report := engine.report host env taskId
  match env.publish [] (report.event env) with
  | (sent, .error message) => failed env taskId sent message
  | (sent, .ok ()) =>
    match env.publish sent (.security (engine.securityEvent host env taskId)) with
    | (sent, .error message) => failed env taskId sent message
    | (sent, .ok ()) => { events := sent, result := .ok (.ok report) }

/-! ### What is reported -/

/-- The files that are scanned, with their texts. -/
def scan (files : List String) : List (String × String) :=
  (files.filter fun rel => !matchIgnorePattern rel engine.ignorePatterns).filterMap fun rel =>
    (host.readFile (engine.cwd.resolve rel)).map (rel, ·)

def scanned : List (String × String) := engine.scan host (engine.allFiles host)

/-- The candidates of a scanned file. -/
def candidatesOf (file : String × String) : List Candidate :=
  candidates engine.rules file.1 file.2

def linesOf (file : String × String) : List String := Text.split '\n' file.2

/-- The findings of a scanned file that no directive suppresses. -/
def unsuppressed (file : String × String) : List LintFinding :=
  ((engine.candidatesOf file).filter fun c => !c.suppressed (linesOf file)).map (·.finding)

def suppressedIn (file : String × String) : Nat :=
  (engine.candidatesOf file).countP (·.suppressed (linesOf file))

theorem scan_cons (rel : String) (files : List String) :
    engine.scan host (rel :: files) =
      (if matchIgnorePattern rel engine.ignorePatterns then []
      else ((host.readFile (engine.cwd.resolve rel)).map (rel, ·)).toList) ++
        engine.scan host files := by
  rw [scan, List.filter_cons]
  cases matchIgnorePattern rel engine.ignorePatterns with
  | true => rfl
  | false =>
    rw [Bool.not_false, if_pos rfl, List.filterMap_cons, if_neg Bool.false_ne_true]
    cases host.readFile (engine.cwd.resolve rel) <;> rfl

theorem foldl_lintNext (files : List String) (run : LintRun) :
    files.foldl (engine.lintNext host) run =
      { findings := run.findings ++ (engine.scan host files).flatMap engine.unsuppressed
        suppressedCount := run.suppressedCount +
          ((engine.scan host files).map engine.suppressedIn).sum } := by
  induction files generalizing run with
  | nil => simp [scan]
  | cons rel files ih =>
    rw [List.foldl_cons, ih, lintNext, scan_cons]
    split
    · rfl
    · cases host.readFile (engine.cwd.resolve rel) with
      | none => rfl
      | some content =>
        simp [lintFile_eq, LintRun.settle, unsuppressed, suppressedIn, candidatesOf, linesOf,
          Nat.add_assoc]

theorem run_eq : engine.run host =
    { findings := (engine.scanned host).flatMap engine.unsuppressed
      suppressedCount := ((engine.scanned host).map engine.suppressedIn).sum } := by
  rw [run, foldl_lintNext, scanned, List.nil_append, Nat.zero_add]

/-- A file has as many candidates as are reported or suppressed. -/
theorem length_unsuppressed_add (file : String × String) :
    (engine.unsuppressed file).length + engine.suppressedIn file =
      (engine.candidatesOf file).length := by
  rw [unsuppressed, suppressedIn, List.length_map, ← List.countP_eq_length_filter, Nat.add_comm,
    List.length_eq_countP_add_countP fun c => c.suppressed (linesOf file)]
  simp

/-- The report lists the findings of the scanned files that no comment suppresses, errors first, and
says that it fails if one of them is an error. -/
structure ReportsExactly (report : LintReport) : Prop where
  ordered : ∃ errors warnings : List LintFinding,
    (errors ++ warnings).Perm ((engine.scanned host).flatMap engine.unsuppressed) ∧
      report.details = (errors ++ warnings).map (·.detail) ∧
      errors.length = report.errors ∧ warnings.length = report.warnings ∧
      (∀ f ∈ errors, f.severity.isError = true) ∧ ∀ f ∈ warnings, f.severity.isError = false
  total : report.details.length + report.suppressed =
    ((engine.scanned host).map fun file => (engine.candidatesOf file).length).sum
  status : report.status =
    if ((engine.scanned host).flatMap engine.unsuppressed).any (·.severity.isError) then .fail
    else .pass

theorem perm_report (findings : List LintFinding) :
    (findings.filter (·.severity.isError) ++ findings.filter (·.severity.isWarning)).Perm
      findings := by
  simp only [Severity.isWarning_eq]
  exact List.filter_append_perm (fun f : LintFinding => f.severity.isError) findings

theorem reportsExactly (env : LintEnv) (taskId : String) :
    engine.ReportsExactly host (engine.report host env taskId) := by
  have hperm := perm_report ((engine.scanned host).flatMap engine.unsuppressed)
  constructor
  · refine ⟨_, _, hperm, ?_, ?_, ?_, fun f hf => (List.mem_filter.mp hf).2, fun f hf => ?_⟩
    · rw [report, run_eq]
    · rw [report, run_eq]
    · rw [report, run_eq]
    · have hwarning := (List.mem_filter.mp hf).2
      rwa [Severity.isWarning_eq, Bool.not_eq_true'] at hwarning
  · rw [report, run_eq, List.length_map, hperm.length_eq, List.length_flatMap, ← List.sum_map_add]
    simp only [length_unsuppressed_add]
  · rw [report, run_eq]
    have hany (findings : List LintFinding) :
        (0 < (findings.filter (·.severity.isError)).length) =
          (findings.any (·.severity.isError) = true) := by
      rw [← List.countP_eq_length_filter, List.countP_pos_iff, List.any_eq_true]
    simp only [hany]

/-! ### What is published -/

variable {engine host} {env : LintEnv} {taskId : String}

theorem fst_publish (sent : List EngineEvent) (event : EngineEvent) :
    (env.publish sent event).1 = sent ++ if env.eventBus = none then [] else [event] := by
  rw [LintEnv.publish]
  cases env.eventBus <;> simp

theorem mem_publish {sent sent' : List EngineEvent} {event event' : EngineEvent}
    {outcome : Except String Unit} (hpublish : env.publish sent event = (sent', outcome))
    (h : event' ∈ sent') : event' ∈ sent ∨ event' = event := by
  obtain rfl : _ = sent' := congrArg Prod.fst hpublish
  rw [fst_publish] at h
  rcases List.mem_append.mp h with h | h
  · exact .inl h
  · split at h
    · cases h
    · exact .inr (List.mem_singleton.mp h)

/-- The `catch` block adds events of an error only, and the promise is not settled to a report. -/
theorem failed_spec (env : LintEnv) (taskId : String) (sent : List EngineEvent)
    (message : String) :
    (∀ event ∈ (failed env taskId sent message).events, event ∈ sent ∨ event.status = .error) ∧
      ∀ report, (failed env taskId sent message).result ≠ .ok (.ok report) := by
  rw [failed]
  cases hlint : env.publish sent ((failedReport env taskId message).event env (some message)) with
  | mk sent' outcome =>
    have hsent {event : EngineEvent} (h : event ∈ sent') :
        event ∈ sent ∨ event.status = .error := by
      rcases mem_publish hlint h with h | h
      · exact .inl h
      · exact .inr (h ▸ rfl)
    cases outcome with
    | error rejection => exact ⟨fun event => hsent, fun report => by rintro ⟨⟩⟩
    | ok =>
      dsimp only
      cases hsecurity : env.publish sent' (.security (failedSecurity env taskId message)) with
      | mk events outcome =>
        refine ⟨fun event h => ?_, fun report h => ?_⟩
        · rcases mem_publish hsecurity h with h | h
          · exact hsent h
          · exact .inr (h ▸ rfl)
        · cases outcome <;> cases h

/-- The two events of an emission without errors. -/
def regularEvents (engine : LintEngine) (host : LintHost) (env : LintEnv) (taskId : String) :
    List EngineEvent :=
  [(engine.report host env taskId).event env, .security (engine.securityEvent host env taskId)]

theorem emit_spec (engine : LintEngine) (host : LintHost) (env : LintEnv) (taskId : String) :
    (∀ event ∈ (engine.emit host env taskId).events,
      event ∈ engine.regularEvents host env taskId ∨ event.status = .error) ∧
    ∀ report, (engine.emit host env taskId).result = .ok (.ok report) →
      report = engine.report host env taskId ∧ (engine.emit host env taskId).events =
        if env.eventBus = none then [] else engine.regularEvents host env taskId := by
  rw [emit]
  cases hlint : env.publish [] ((engine.report host env taskId).event env) with
  | mk sent outcome =>
    have hsent {event : EngineEvent} (h : event ∈ sent) :
        event ∈ engine.regularEvents host env taskId := by
      rcases mem_publish hlint h with h | rfl
      · cases h
      · exact List.mem_cons_self
    cases outcome with
    | error message =>
      obtain ⟨hevents, hresult⟩ := failed_spec env taskId sent message
      exact ⟨fun event h => (hevents event h).imp_left hsent,
        fun report h => absurd h (hresult report)⟩
    | ok =>
      dsimp only
      cases hsecurity : env.publish sent (.security (engine.securityEvent host env taskId)) with
      | mk sent' outcome =>
        have hsent' {event : EngineEvent} (h : event ∈ sent') :
            event ∈ engine.regularEvents host env taskId := by
          rcases mem_publish hsecurity h with h | rfl
          · exact hsent h
          · exact List.mem_cons_of_mem _ List.mem_cons_self
        cases outcome with
        | error message =>
          obtain ⟨hevents, hresult⟩ := failed_spec env taskId sent' message
          exact ⟨fun event h => (hevents event h).imp_left hsent',
            fun report h => absurd h (hresult report)⟩
        | ok =>
          refine ⟨fun event h => .inl (hsent' h), fun report h => ?_⟩
          cases h
          have hfirst : sent = _ := (congrArg Prod.fst hlint).symm.trans (fst_publish ..)
          have hsecond : sent' = _ := (congrArg Prod.fst hsecurity).symm.trans (fst_publish ..)
          refine ⟨rfl, ?_⟩
          show sent' = _
          rw [hsecond, hfirst]
          split <;> rfl

theorem snd_publish (hbus : env.Accepts) (sent : List EngineEvent) (event : EngineEvent) :
    (env.publish sent event).2 = .ok () := by
  rw [LintEnv.publish]
  cases h : env.eventBus with
  | none => rfl
  | some rejects =>
    dsimp only
    rw [hbus rejects h event]

theorem result_of_accepts (engine : LintEngine) (host : LintHost) (hbus : env.Accepts) :
    (engine.emit host env taskId).result = .ok (.ok (engine.report host env taskId)) := by
  have hlint := snd_publish hbus [] ((engine.report host env taskId).event env)
  rw [emit]
  cases hfirst : env.publish [] ((engine.report host env taskId).event env) with
  | mk sent outcome =>
    rw [hfirst] at hlint
    cases hlint
    have hsecurity := snd_publish hbus sent (.security (engine.securityEvent host env taskId))
    dsimp only
    cases hsecond : env.publish sent (.security (engine.securityEvent host env taskId)) with
    | mk sent' outcome =>
      rw [hsecond] at hsecurity
      cases hsecurity
      rfl

theorem mem_findings {f : LintFinding} : f ∈ (engine.run host).findings ↔
    ∃ file ∈ engine.scanned host, ∃ c ∈ engine.candidatesOf file,
      c.suppressed (linesOf file) = false ∧ c.finding = f := by
  simp [run_eq, unsuppressed, and_assoc]

/-- Neither event of an emission without errors passes over a finding. -/
theorem regularEvents_pass {event : EngineEvent}
    (hevent : event ∈ engine.regularEvents host env taskId) (hpass : event.status = .pass)
    {f : LintFinding} (hf : f ∈ (engine.run host).findings) : ¬event.Concerns f := by
  intro hconcerns
  rcases List.mem_cons.mp hevent with rfl | hevent
  · have hmem : f ∈ (engine.run host).findings.filter (·.severity.isError) :=
      List.mem_filter.mpr ⟨hf, hconcerns⟩
    have hfail : (engine.report host env taskId).status = .fail :=
      if_pos (List.length_pos_of_mem hmem)
    exact absurd (hpass.symm.trans hfail) nofun
  · obtain rfl := List.mem_singleton.mp hevent
    obtain ⟨hsafety, hseverity⟩ := hconcerns
    have hmem : f ∈ (engine.run host).findings.filter (·.category = .safety) :=
      List.mem_filter.mpr ⟨hf, decide_eq_true hsafety⟩
    have hfail : (engine.securityEvent host env taskId).status = .fail := by
      refine if_pos (hseverity.imp (fun h => ?_) fun h => ?_) <;>
        exact List.countP_pos_iff.mpr ⟨f, hmem, decide_eq_true h⟩
    exact absurd (hpass.symm.trans hfail) nofun

theorem mem_scanned {rel content : String} : (rel, content) ∈ engine.scanned host ↔
    rel ∈ engine.allFiles host ∧ matchIgnorePattern rel engine.ignorePatterns = false ∧
      host.readFile (engine.cwd.resolve rel) = some content := by
  simp only [scanned, scan, List.mem_filterMap, List.mem_filter, Bool.not_eq_true',
    Option.map_eq_some_iff, Prod.mk.injEq]
  constructor
  · rintro ⟨rel, ⟨hrel, hignored⟩, content, hread, rfl, rfl⟩
    exact ⟨hrel, hignored, hread⟩
  · rintro ⟨hrel, hignored, hread⟩
    exact ⟨rel, ⟨hrel, hignored⟩, content, hread, rfl, rfl⟩

end LintEngine

/-- What is reported, what is published, and which files are scanned by an engine that is given
none. -/
theorem lint_reported (engine : LintEngine) (host : LintHost) (env : LintEnv) (taskId : String) :
    let emission := engine.emit host env taskId
    (∀ report, emission.result = .ok (.ok report) → engine.ReportsExactly host report ∧
      emission.events = if env.eventBus = none then [] else
        [report.event env, .security (engine.securityEvent host env taskId)]) ∧
    (env.Accepts → ∃ report, emission.result = .ok (.ok report)) ∧
    (∀ event ∈ emission.events, event.status = .pass →
      ∀ file ∈ engine.scanned host, ∀ c ∈ engine.candidatesOf file, event.Concerns c.finding →
        c.suppressed (LintEngine.linesOf file) = true) ∧
    (engine.files = none → ∀ rel content, (rel, content) ∈ engine.scanned host ↔
      ∃ e ∈ host.tree.entries.files, Walked e ∧ rel = relPath e.1 ∧
        extension rel ∈ engine.extensions ∧
        matchIgnorePattern rel engine.ignorePatterns = false ∧
        host.readFile (engine.cwd.resolve rel) = some content) := by
  intro emission
  obtain ⟨hevents, hreport⟩ := LintEngine.emit_spec engine host env taskId
  refine ⟨fun report h => ?_, fun hbus => ?_, fun event hevent hpass file hfile c hc hconcerns => ?_,
    fun hnone rel content => ?_⟩
  · obtain ⟨rfl, hsent⟩ := hreport report h
    exact ⟨engine.reportsExactly host env taskId, hsent⟩
  · exact ⟨_, LintEngine.result_of_accepts engine host hbus⟩
  · rcases hevents event hevent with hregular | herror
    · refine (Bool.not_eq_false _).mp fun hsuppressed => ?_
      refine LintEngine.regularEvents_pass hregular hpass ?_ hconcerns
      exact LintEngine.mem_findings.mpr ⟨file, hfile, c, hc, hsuppressed, rfl⟩
    · exact absurd (hpass.symm.trans herror) nofun
  · rw [LintEngine.mem_scanned, LintEngine.allFiles, hnone]
    dsimp only
    rw [mem_walkFiles]
    constructor
    · rintro ⟨⟨e, he, hwalked, hrel, hextension⟩, hignored, hread⟩
      exact ⟨e, he, hwalked, hrel, of_decide_eq_true hextension, hignored, hread⟩
    · rintro ⟨e, he, hwalked, hrel, hextension, hignored, hread⟩
      exact ⟨⟨e, he, hwalked, hrel, decide_eq_true hextension⟩, hignored, hread⟩

/-- An engine with one rule on one file. -/
def evalEngine : LintEngine where
  cwd := AbsPath.root.resolve "work"
  rules := [{
    id := "no-eval", category := .safety, severity := .critical, message := "eval"
    test := fun line _ => (Text.includes line "eval(", 0) }]
  files := some ["a.js", "a.txt"]
  extensions := [".js"]

def evalHost : LintHost where
  tree := ⟨.nil, trivial⟩
  readFile _ := some "eval(x)\neval(y) // kirkforge-lint-disable-line"

example : (evalEngine.run evalHost).findings.map (·.detail) =
      [{ file := "a.js", line := 1, rule := "no-eval", message := "eval" }] ∧
    (evalEngine.run evalHost).suppressedCount = 1 := by decide

end KirkForge.Lint
