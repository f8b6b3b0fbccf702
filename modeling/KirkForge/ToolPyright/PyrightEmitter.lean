import KirkForge.Theory.JsonCoercion
import KirkForge.Theory.Outcome
import KirkForge.Theory.RelativePath
import KirkForge.Theory.Scanning
import KirkForge.ToolTsc.TscEmitter
import KirkForge.ToolTsc.TypesReport

/-!
# The Python type verifier

`PyrightEmitter` (`tool-pyright/src/index.ts`). What Pyright has found is read off the JSON text
that it writes to its standard output; members that are missing or `null` count as nothing found,
and so does an output without any text.
-/

namespace KirkForge

structure PyrightEmitter where
  cwd : String
  files : Option (List String) := none
  command : Option String := none
  deriving DecidableEq, Repr

namespace PyrightEmitter

/-! ### The files -/

def sanitizeFilePath (cwd : AbsPath) (f : String) : Option String :=
  let rel := cwd.relative (cwd.resolve f)
  if Text.startsWith rel ".." ∨ rel = "" ∨ Text.startsWith rel "/" then none else some rel

def isPython (f : String) : Bool := ".py".toList <:+ f.toList

/-- The files to be verified, where `walked` are those that a walk of the directory visits. -/
def discoverPythonFiles (cwd : AbsPath) (walked : List String) : Option (List String) → List String
  | none | some [] => walked.filter isPython
  | some files => (files.filterMap (sanitizeFilePath cwd)).filter isPython

/-! ### The output -/

/-- `value?.key`, without a value that is `null`. -/
def member (key : String) (value : Option Json) : Option Json :=
  (value.bind (Json.get? key)).filter (· ≠ .null)

def errorCount (report : Json) : Json :=
  (member "errorCount" (member "summary" (some report))).getD (.num 0)

def diagnostics (report : Json) : Option Json := member "diagnostics" (some report)

def filePath (d : Json) : Option Json := member "path" (member "file" (some d))

def line (d : Json) : Json :=
  (member "line" (member "start" (member "range" (some d)))).getD (.num 0)

/-- `isMissingTool(e, cmd)` on the message of the error. -/
def isMissingTool (cmd message : String) : Bool :=
  Pattern.search [Pattern.literal "ENOENT", Pattern.literal "not found",
      Pattern.literal "spawn" ++ [.boundary, .anyStar, .boundary] ++ Pattern.literal "ENOENT"]
      message ||
    Text.includes message ("spawn " ++ cmd ++ " ENOENT")

/-- The report that is written to the standard output. -/
def parse (stdout stderr : String) : Except String Json :=
  if Text.trim stdout = "" then .ok (.obj [])
  else
    match Json.parse stdout with
    | some report => .ok report
    | none =>
      let text := if stderr ≠ "" then stderr else if stdout ≠ "" then stdout
        else "pyright returned unparseable output"
      .error (Text.sliceTo (Text.trim text) 500)

/-- The message of the `TypeError` that an expression throws on a value. -/
abbrev TypeErrors := String → Json → String

/-- A value of the expression, or the `TypeError` if there is none. -/
def orThrow {α : Type} (typeError : TypeErrors) (expression : String) (value : Json) :
    Option α → Except String α
  | some a => .ok a
  | none => .error (typeError expression value)

/-- The file that is named in an entry. -/
def pathText : Option Json → Option String
  | none => some "<pyright>"
  | some (.str path) => some path
  | some _ => none

/-- The entry of the details for a diagnostic. -/
def detail (typeError : TypeErrors) (cwd : AbsPath) (d : Json) : Except String TypeDetail :=
  if d = .null then .error (typeError "d.file" d)
  else
    (orThrow typeError "resolve(cwd, path)" ((filePath d).getD .null) (pathText (filePath d))).bind
      fun path =>
    (orThrow typeError "line + 1" (line d) (line d).addOne).map fun line =>
      { file := cwd.relative (cwd.resolve path)
        line
        code := (member "code" (some d)).getD (.str "pyright")
        message := (member "message" (some d)).getD (.str "pyright error") }

def details (typeError : TypeErrors) (cwd : AbsPath) (report : Json) :
    Except String (List TypeDetail) :=
  match diagnostics report with
  | none => .ok []
  | some (.arr items) => items.mapM (detail typeError cwd)
  | some value => .error (typeError "diagnostics.map" value)

/-! ### The emission -/

variable (e : PyrightEmitter)

def commandName : String := e.command.getD "pyright"

/-- The body of the `try` statement up to the event. -/
def check (env : EmitEnv) (typeError : TypeErrors) (cwd : AbsPath) (taskId : String)
    (targets : List String) (p : ToolProcess) : Except String (TypesReport × VerifierStatus) :=
  let command := Text.join " " (e.commandName :: "--outputjson" :: targets)
  (p.output command).bind fun (stdout, stderr) =>
  (parse stdout stderr).bind fun report =>
  if report = .null then .error (typeError "parsed.summary" report)
  else
    (details typeError cwd report).bind fun details =>
    (orThrow typeError "errors > 0" (errorCount report) (errorCount report).toNumber).map fun n =>
      ({ taskId, errors := errorCount report, durationMs := env.elapsedMs, details },
        if n.positive then .fail else .pass)

/-- `emit(taskId)` by a verifier that runs in the directory `cwd`, where `p` is what becomes of
Pyright's process if it is run. -/
def emit (env : EmitEnv) (typeError : TypeErrors) (cwd : AbsPath) (walked : List String)
    (taskId : String) (p : ToolProcess) : TypesEmission :=
  let cwd := cwd.resolve e.cwd
  let targets := discoverPythonFiles cwd walked e.files
  if targets = [] then env.skip taskId
  else
    env.report "pyright" taskId (isMissingTool e.commandName)
      (e.check env typeError cwd taskId targets p)

end PyrightEmitter

end KirkForge

/-!
## Verdicts of the type verifiers

Neither verifier looks at how the process of its tool has ended if the process has written anything.
So a process that has failed is a pass unless what it has written is recognised as an error: by the
name of a compiler error in the output of `tsc`, by a count in the report of Pyright.
-/

namespace KirkForge

namespace PyrightEmitter

/-- An entry that can be read: it is not `null`, the file is a string if it is there, and the line
can be added to. -/
structure ReadableEntry (d : Json) : Prop where
  ne_null : d ≠ .null
  path : ∀ path, filePath d = some path → ∃ s, path = .str s
  line : (line d).text ≠ none

/-- A report that can be read: the count can be compared, and the diagnostics are an array of
entries that can be read, if they are there. -/
structure ReadableReport (report : Json) : Prop where
  ne_null : report ≠ .null
  count : (errorCount report).text ≠ none
  diagnostics : ∀ value, diagnostics report = some value →
    ∃ items, value = .arr items ∧ ∀ d ∈ items, ReadableEntry d

/-- The report counts an error. -/
def CountsError (report : Json) : Prop :=
  ∃ n, (errorCount report).toNumber = some n ∧ n.positive = true

/-- The output is recognised as that of a failure: there is text that is no report, or a report that
cannot be read or that counts an error. -/
def ReportsFailure (stdout : String) : Prop :=
  Text.trim stdout ≠ "" ∧
    ∀ report, Json.parse stdout = some report → ReadableReport report → CountsError report

end PyrightEmitter

theorem Json.toNumber_eq_none_iff {value : Json} : value.toNumber = none ↔ value.text = none := by
  cases value with
  | null | bool | num => exact iff_of_false nofun nofun
  | str | arr | obj => simp only [toNumber, Option.map_eq_none_iff]

theorem Json.addOne_eq_none_iff {value : Json} : value.addOne = none ↔ value.text = none := by
  cases value with
  | null | bool | num => exact iff_of_false nofun nofun
  | str | arr | obj => simp only [addOne, Option.map_eq_none_iff]

namespace PyrightEmitter

variable {typeError : TypeErrors} {cwd : AbsPath} {taskId : String} {p : ToolProcess}
  {report d : Json}

theorem orThrow_eq_ok {α : Type} {expression : String} {value : Json} {o : Option α} {a : α} :
    orThrow typeError expression value o = .ok a ↔ o = some a := by
  cases o with
  | none => exact iff_of_false nofun nofun
  | some b =>
    constructor
    · intro h
      rw [Except.ok.inj h]
    · intro h
      rw [Option.some.inj h]
      rfl

theorem exists_detail_iff : (∃ entry, detail typeError cwd d = .ok entry) ↔ ReadableEntry d := by
  rw [detail]
  by_cases hnull : d = .null
  · rw [if_pos hnull]
    exact iff_of_false nofun fun h => h.ne_null hnull
  rw [if_neg hnull]
  constructor
  · rintro ⟨entry, h⟩
    obtain ⟨path, hpath, h⟩ := ExceptRules.bind_eq_ok.mp h
    obtain ⟨line, hline, -⟩ := ExceptRules.map_eq_ok.mp h
    rw [orThrow_eq_ok] at hpath hline
    refine ⟨hnull, fun value hvalue => ?_, fun htext => ?_⟩
    · rw [hvalue] at hpath
      cases value with
      | str s => exact ⟨s, rfl⟩
      | _ => cases hpath
    · rw [Json.addOne_eq_none_iff.mpr htext] at hline
      cases hline
  · intro h
    obtain ⟨path, hpath⟩ : ∃ path, pathText (filePath d) = some path := by
      cases hfile : filePath d with
      | none => exact ⟨_, rfl⟩
      | some value =>
        obtain ⟨s, rfl⟩ := h.path value hfile
        exact ⟨s, rfl⟩
    obtain ⟨next, hnext⟩ : ∃ next, (line d).addOne = some next :=
      Option.ne_none_iff_exists'.mp fun hnone => h.line (Json.addOne_eq_none_iff.mp hnone)
    exact ⟨_, ExceptRules.bind_eq_ok.mpr ⟨path, orThrow_eq_ok.mpr hpath,
      ExceptRules.map_eq_ok.mpr ⟨next, orThrow_eq_ok.mpr hnext, rfl⟩⟩⟩

theorem exists_details_iff : (∃ entries, details typeError cwd report = .ok entries) ↔
    ∀ value, diagnostics report = some value →
      ∃ items, value = .arr items ∧ ∀ d ∈ items, ReadableEntry d := by
  rw [details]
  cases diagnostics report with
  | none => exact iff_of_true ⟨[], rfl⟩ nofun
  | some value =>
    cases value with
    | arr items =>
      have hitems : (∃ entries, items.mapM (detail typeError cwd) = .ok entries) ↔
          ∀ d ∈ items, ReadableEntry d := by
        rw [ExceptRules.exists_mapM_eq_ok]
        exact forall₂_congr fun d _ => exists_detail_iff
      refine hitems.trans ⟨fun h value hvalue => ?_, fun h => ?_⟩
      · exact ⟨items, (Option.some.inj hvalue).symm, h⟩
      · obtain ⟨items', heq, h⟩ := h _ rfl
        rwa [Json.arr.inj heq]
    | _ =>
      refine iff_of_false nofun fun h => ?_
      obtain ⟨items, heq, -⟩ := h _ rfl
      cases heq

/-- The report that the standard output is read as: none without text. -/
theorem exists_parse_iff {stdout stderr : String} {q : Json → Prop}
    (hempty : q (.obj [])) : (∃ report, parse stdout stderr = .ok report ∧ q report) ↔
      (Text.trim stdout ≠ "" → ∃ report, Json.parse stdout = some report ∧ q report) := by
  rw [parse]
  by_cases hblank : Text.trim stdout = ""
  · rw [if_pos hblank]
    exact iff_of_true ⟨_, rfl, hempty⟩ (absurd hblank)
  · rw [if_neg hblank, forall_prop_of_true hblank]
    cases Json.parse stdout with
    | none => exact ⟨nofun, nofun⟩
    | some report => simp only [Except.ok.injEq, Option.some.injEq]

theorem readable_empty : ReadableReport (.obj []) ∧ ¬CountsError (.obj []) := by
  refine ⟨⟨nofun, nofun, nofun⟩, ?_⟩
  rintro ⟨n, hn, hpositive⟩
  obtain rfl : JsNumber.finite 0 = n := Option.some.inj hn
  exact absurd hpositive (by decide +kernel)

theorem check_eq_pass_iff {e : PyrightEmitter} {env : EmitEnv} {targets : List String} :
    (∃ r, e.check env typeError cwd taskId targets p = .ok (r, .pass)) ↔
      (p.Silent → p.Succeeded) ∧ ¬ReportsFailure p.stdout := by
  have hreport : (∃ report, parse p.stdout p.stderr = .ok report ∧
      ReadableReport report ∧ ¬CountsError report) ↔ ¬ReportsFailure p.stdout := by
    rw [exists_parse_iff readable_empty, ReportsFailure]
    push Not
    rfl
  rw [← hreport, check]
  rcases p.output_cases (Text.join " " (e.commandName :: "--outputjson" :: targets)) with
    ⟨houtput, hsilent⟩ | ⟨⟨message, houtput⟩, hsilent, hfailed⟩
  · rw [houtput, and_iff_right hsilent]
    constructor
    · rintro ⟨r, h⟩
      obtain ⟨_, hpair, h⟩ := ExceptRules.bind_eq_ok.mp h
      obtain rfl := Except.ok.inj hpair
      obtain ⟨report, hparse, h⟩ := ExceptRules.bind_eq_ok.mp h
      obtain ⟨hnull, h⟩ := ExceptRules.ite_error_eq_ok.mp h
      obtain ⟨entries, hentries, h⟩ := ExceptRules.bind_eq_ok.mp h
      obtain ⟨n, hn, h⟩ := ExceptRules.map_eq_ok.mp h
      rw [orThrow_eq_ok] at hn
      refine ⟨report, hparse,
        ⟨hnull, fun htext => ?_, exists_details_iff.mp ⟨entries, hentries⟩⟩, ?_⟩
      · rw [Json.toNumber_eq_none_iff.mpr htext] at hn
        cases hn
      · rintro ⟨m, hm, hpositive⟩
        obtain rfl := Option.some.inj (hn.symm.trans hm)
        rw [if_pos hpositive] at h
        cases (Prod.mk.inj h).2
    · rintro ⟨report, hparse, hreadable, hcount⟩
      obtain ⟨entries, hentries⟩ : ∃ entries, details typeError cwd report = .ok entries :=
        exists_details_iff.mpr hreadable.diagnostics
      obtain ⟨n, hn⟩ := Option.ne_none_iff_exists'.mp fun hnone =>
        hreadable.count (Json.toNumber_eq_none_iff.mp hnone)
      have hstatus : (if n.positive then VerifierStatus.fail else .pass) = .pass :=
        if_neg fun hpositive => hcount ⟨n, hn, hpositive⟩
      refine ⟨⟨taskId, errorCount report, env.elapsedMs, entries⟩, ?_⟩
      refine ExceptRules.bind_eq_ok.mpr ⟨_, rfl, ?_⟩
      refine ExceptRules.bind_eq_ok.mpr ⟨report, hparse, ?_⟩
      refine ExceptRules.ite_error_eq_ok.mpr ⟨hreadable.ne_null, ?_⟩
      refine ExceptRules.bind_eq_ok.mpr ⟨entries, hentries, ?_⟩
      exact ExceptRules.map_eq_ok.mpr ⟨n, orThrow_eq_ok.mpr hn, Prod.ext rfl hstatus⟩
  · rw [houtput]
    exact iff_of_false nofun fun h => hfailed (h.1 hsilent)

theorem status_of_check {e : PyrightEmitter} {env : EmitEnv} {targets : List String}
    {r : TypesReport × VerifierStatus}
    (h : e.check env typeError cwd taskId targets p = .ok r) : r.2 = .pass ∨ r.2 = .fail := by
  obtain ⟨_, -, h⟩ := ExceptRules.bind_eq_ok.mp h
  obtain ⟨_, -, h⟩ := ExceptRules.bind_eq_ok.mp h
  obtain ⟨-, h⟩ := ExceptRules.ite_error_eq_ok.mp h
  obtain ⟨_, -, h⟩ := ExceptRules.bind_eq_ok.mp h
  obtain ⟨n, -, rfl⟩ := ExceptRules.map_eq_ok.mp h
  by_cases hpositive : n.positive = true
  · exact .inr (if_pos hpositive)
  · exact .inl (if_neg hpositive)

/-- The files that Pyright is to look at. -/
def targets (e : PyrightEmitter) (cwd : AbsPath) (walked : List String) : List String :=
  discoverPythonFiles (cwd.resolve e.cwd) walked e.files

theorem failsClosed_emit_iff {e : PyrightEmitter} {env : EmitEnv} {walked : List String} :
    (e.emit env typeError cwd walked taskId p).FailsClosed env (e.targets cwd walked ≠ []) p ↔
      env.eventBus = none ∨ e.targets cwd walked = [] ∨ p.Succeeded ∨ p.Silent ∨
        ReportsFailure p.stdout := by
  rw [emit, ← targets]
  by_cases hnone : e.targets cwd walked = []
  · simp only [hnone, ne_eq, not_true_eq_false, if_true, true_or, or_true, iff_true]
    exact EmitEnv.failsClosed_skip p
  · simp only [hnone, ne_eq, not_false_eq_true, if_false, false_or]
    rw [EmitEnv.failsClosed_report_iff fun r h => status_of_check h, check_eq_pass_iff]
    tauto

end PyrightEmitter

theorem TscEmitter.failsClosed_emit_iff {e : TscEmitter} {env : EmitEnv} {cwd : AbsPath}
    {existsSync : AbsPath → Bool} {taskId : String} {p : ToolProcess} :
    (e.emit env cwd existsSync taskId p).FailsClosed env
        (existsSync (e.projectFile cwd) = true) p ↔
      env.eventBus = none ∨ existsSync (e.projectFile cwd) = false ∨ p.Succeeded ∨ p.Silent ∨
        NamesError (p.stdout ++ p.stderr) := by
  rw [emit]
  cases existsSync (e.projectFile cwd) with
  | false =>
    simp only [Bool.false_eq_true, Bool.not_false, if_true, true_or, or_true, iff_true]
    exact EmitEnv.failsClosed_skip p
  | true =>
    simp only [Bool.not_true, Bool.false_eq_true, if_false, reduceCtorEq, false_or]
    rw [EmitEnv.failsClosed_report_iff fun r h => status_of_check h, check_eq_pass_iff]
    tauto

/-- The verifiers fail closed if and only if nobody is told, there is nothing to verify, the process
has succeeded or has written nothing, or the output names an error of the compiler, for `tsc`, or is
recognised as that of a failure, for Pyright. -/
theorem typeVerifiers_failClosed_iff (tsc : TscEmitter) (pyright : PyrightEmitter) (env : EmitEnv)
    (cwd : AbsPath) (existsSync : AbsPath → Bool) (walked : List String)
    (typeError : PyrightEmitter.TypeErrors) (taskId : String) (p : ToolProcess) :
    ((tsc.emit env cwd existsSync taskId p).FailsClosed env
        (existsSync (tsc.projectFile cwd) = true) p ↔
      env.eventBus = none ∨ existsSync (tsc.projectFile cwd) = false ∨ p.Succeeded ∨ p.Silent ∨
        TscEmitter.NamesError (p.stdout ++ p.stderr)) ∧
    ((pyright.emit env typeError cwd walked taskId p).FailsClosed env
        (pyright.targets cwd walked ≠ []) p ↔
      env.eventBus = none ∨ pyright.targets cwd walked = [] ∨ p.Succeeded ∨ p.Silent ∨
        PyrightEmitter.ReportsFailure p.stdout) :=
  ⟨TscEmitter.failsClosed_emit_iff, PyrightEmitter.failsClosed_emit_iff⟩

/-- A process that was killed after it had written a line. -/
private def killedProcess : ToolProcess where
  ending := .killed "SIGTERM"
  stdout := ""
  stderr := "FATAL ERROR: out of memory\n"

private def quietBus : EmitEnv where
  elapsedMs := 30000
  now := "2026-01-01T00:00:30.000Z"
  eventBus := some fun _ => none

/-- Both verifiers let a process pass that was killed. -/
theorem typeVerifiers_pass_killed :
    ¬(∀ (e : TscEmitter) (env : EmitEnv) (cwd : AbsPath) (existsSync : AbsPath → Bool)
        (taskId : String) (p : ToolProcess),
      (e.emit env cwd existsSync taskId p).FailsClosed env
        (existsSync (e.projectFile cwd) = true) p) ∧
    ¬∀ (e : PyrightEmitter) (env : EmitEnv) (typeError : PyrightEmitter.TypeErrors) (cwd : AbsPath)
        (walked : List String) (taskId : String) (p : ToolProcess),
      (e.emit env typeError cwd walked taskId p).FailsClosed env (e.targets cwd walked ≠ []) p := by
  have hfailed : ¬killedProcess.Succeeded := by decide
  have hspoke : ¬killedProcess.Silent := by decide
  constructor
  · intro h
    have hclosed := h { cwd := "/work" } quietBus .root (fun _ => true) "t1" killedProcess
    rcases TscEmitter.failsClosed_emit_iff.mp hclosed with hbus | hfile | h | h | hnamed
    · cases hbus
    · cases hfile
    · exact hfailed h
    · exact hspoke h
    · exact absurd (TscEmitter.outputHadErrors_iff.mpr hnamed) (by decide)
  · intro h
    have hclosed := h { cwd := "/work" } quietBus (fun _ _ => "TypeError") .root ["main.py"] "t1"
      killedProcess
    rcases PyrightEmitter.failsClosed_emit_iff.mp hclosed with hbus | hfiles | h | h | hreport
    · cases hbus
    · exact absurd hfiles (by decide)
    · exact hfailed h
    · exact hspoke h
    · exact hreport.1 (by decide)

end KirkForge
