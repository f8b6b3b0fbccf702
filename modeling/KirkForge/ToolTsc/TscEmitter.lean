import KirkForge.Theory.Lists
import KirkForge.Theory.Outcome
import KirkForge.Theory.Path
import KirkForge.Theory.Scanning
import KirkForge.Theory.Text
import KirkForge.ToolTsc.TypesReport

/-!
# The TypeScript verifier

`TscEmitter` (`tool-tsc/src/index.ts`). The compiler is run through `npx`, and what it has found is
read off the lines of its output: the exit code is not looked at unless there is no output at all.
-/

namespace KirkForge

structure TscEmitter where
  cwd : String
  tsconfigPath : Option String := none
  deriving DecidableEq, Repr

namespace TscEmitter

/-! ### The patterns -/

/-- `error\s+TS(\d+):` and what follows it. -/
def errorCode (cs : List Char) : Option (List Char × List Char) :=
  (Scan.keyword "error" cs).bind fun cs =>
  (Scan.many1 Text.isWhitespace cs).bind fun space =>
  (Scan.keyword "TS" space.2).bind fun cs =>
  (Scan.many1 Char.isDigit cs).bind fun code =>
  (Scan.keyword ":" code.2).map fun rest => (code.1, rest)

/-- `\s*(.+)`: the white space leaves something to the message. -/
def message (cs : List Char) : Option (List Char) :=
  let space := (Scan.many Text.isWhitespace cs).1.length
  (List.range (space + 1)).reverse.findSome? fun k =>
    let text := (cs.drop k).takeWhile fun c => !Pattern.isLineTerminator c
    if text = [] then none else some text

/-- The captures of a line behind the file. -/
structure Location where
  line : List Char
  code : List Char
  message : List Char

/-- `\((\d+),\d+\):\s*error\s+TS(\d+):\s*(.+)` -/
def location (cs : List Char) : Option Location :=
  (Scan.keyword "(" cs).bind fun cs =>
  (Scan.many1 Char.isDigit cs).bind fun line =>
  (Scan.keyword "," line.2).bind fun cs =>
  (Scan.many1 Char.isDigit cs).bind fun column =>
  (Scan.keyword "):" column.2).bind fun cs =>
  (errorCode (Scan.many Text.isWhitespace cs).2).bind fun code =>
  (message code.2).map fun message => ⟨line.1, code.1, message⟩

/-- `(.+?)` and the location: the file is as short as it can be. -/
def fileThenLocation (file : List Char) : List Char → Option (List Char × Location)
  | [] => none
  | c :: cs =>
    if Pattern.isLineTerminator c then none
    else
      match location cs with
      | some l => some (file ++ [c], l)
      | none => fileThenLocation (file ++ [c]) cs

/-- `line.match(/(.+?)\((\d+),\d+\):\s*error\s+TS(\d+):\s*(.+)/)` -/
def matchLine (line : String) : Option (List Char × Location) :=
  Scan.search (fun _ cs => fileThenLocation [] cs) none line.toList

/-- `text.replace(part, "")` -/
def removeFirst (part : List Char) : List Char → List Char
  | [] => []
  | c :: cs => if part <+: c :: cs then (c :: cs).drop part.length else c :: removeFirst part cs

variable (e : TscEmitter)

/-- The entry for a line of the output. -/
def detail (line : String) : Option TypeDetail :=
  (matchLine line).map fun (file, l) =>
    let relative := removeFirst e.cwd.toList file
    { file := String.ofList (if relative.head? = some '/' then relative.tail else relative)
      line := .num (Json.natOfDigits l.line)
      code := .str ("TS" ++ String.ofList l.code)
      message := .str (String.ofList l.message) }

/-- `/\berror\s+TS\d+:/.test(output)` -/
def outputHadErrors (output : String) : Bool :=
  (Scan.search (fun prev cs => if Pattern.isBoundary prev cs.head? then errorCode cs else none) none
    output.toList).isSome

/-! ### The emission -/

def details (output : String) : List TypeDetail :=
  let details := (Text.split '\n' output).filterMap e.detail
  if outputHadErrors output ∧ details = [] then
    let message := Text.sliceTo (Text.trim output) 500
    [{ file := "<tsc>", line := .num 0, code := .str "TS_UNKNOWN"
       message := .str (if message = "" then "tsc failed with unparsed output" else message) }]
  else details

/-- The body of the `try` statement up to the event. -/
def check (env : EmitEnv) (taskId : String) (tsconfigPath : AbsPath) (p : ToolProcess) :
    Except String (TypesReport × VerifierStatus) :=
  (p.output ("npx tsc --noEmit --project " ++ tsconfigPath.text)).map fun (stdout, stderr) =>
    let details := e.details (stdout ++ stderr)
    ({ taskId, errors := .num details.length, durationMs := env.elapsedMs, details },
      if details ≠ [] then .fail else .pass)

/-- The project file, for a verifier that runs in the directory `cwd`. -/
def projectFile (cwd : AbsPath) : AbsPath :=
  (cwd.resolve e.cwd).resolve (e.tsconfigPath.getD "tsconfig.json")

/-- `emit(taskId)`, where `p` is what becomes of the compiler's process if it is run. -/
def emit (env : EmitEnv) (cwd : AbsPath) (existsSync : AbsPath → Bool) (taskId : String)
    (p : ToolProcess) : TypesEmission :=
  let tsconfigPath := e.projectFile cwd
  if !existsSync tsconfigPath then env.skip taskId
  else
    env.report "tsc" taskId (fun message => Text.includes message "ENOENT")
      (e.check env taskId tsconfigPath p)

/-! ### What the patterns find -/

/-- At the start stand the word `error`, white space, a number behind `TS` and a colon. -/
def ErrorAt (cs : List Char) : Prop :=
  ∃ space code back,
    cs = "error".toList ++ (space ++ ("TS".toList ++ (code ++ (":".toList ++ back)))) ∧
    (space ≠ [] ∧ ∀ c ∈ space, Text.isWhitespace c = true) ∧
    code ≠ [] ∧ ∀ c ∈ code, c.isDigit = true

/-- The text names an error of the compiler. -/
def NamesError (text : String) : Prop :=
  ∃ front cs, text.toList = front ++ cs ∧ front.getLast?.any Pattern.isWordChar = false ∧ ErrorAt cs

theorem ErrorAt.append {cs : List Char} (h : ErrorAt cs) (rest : List Char) :
    ErrorAt (cs ++ rest) := by
  obtain ⟨space, code, back, rfl, hspace, hcode⟩ := h
  exact ⟨space, code, back ++ rest, by simp only [List.append_assoc], hspace, hcode⟩

theorem errorCode_isSome {cs : List Char} : (errorCode cs).isSome = true ↔ ErrorAt cs := by
  constructor
  · intro h
    obtain ⟨r, h⟩ := Option.isSome_iff_exists.mp h
    obtain ⟨cs₁, hword, h⟩ := Option.bind_eq_some_iff.mp h
    obtain ⟨⟨space, cs₂⟩, hspace, h⟩ := Option.bind_eq_some_iff.mp h
    obtain ⟨cs₃, hts, h⟩ := Option.bind_eq_some_iff.mp h
    obtain ⟨⟨code, cs₄⟩, hcode, h⟩ := Option.bind_eq_some_iff.mp h
    obtain ⟨back, hcolon, -⟩ := Option.map_eq_some_iff.mp h
    obtain ⟨rfl, hspace⟩ := Scan.many1_spec hspace
    obtain ⟨rfl, hcode⟩ := Scan.many1_spec hcode
    rw [Scan.keyword_iff] at hword hts hcolon
    obtain rfl : cs₄ = _ := hcolon
    obtain rfl : cs₂ = _ := hts
    exact ⟨space, code, back, hword, ‹_›, ‹_›⟩
  · rintro ⟨space, code, back, rfl, ⟨hspace, hwhite⟩, hcode, hdigits⟩
    have hT : Scan.many1 Text.isWhitespace
        (space ++ ("TS".toList ++ (code ++ (":".toList ++ back)))) =
          some (space, "TS".toList ++ (code ++ (":".toList ++ back))) :=
      Scan.many1_append hspace hwhite (by decide) _
    have hcolon : Scan.many1 Char.isDigit (code ++ (":".toList ++ back)) =
        some (code, ":".toList ++ back) := Scan.many1_append hcode hdigits (by decide) _
    rw [errorCode, Scan.keyword_iff.mpr rfl, Option.bind_some, hT, Option.bind_some,
      Scan.keyword_iff.mpr rfl, Option.bind_some, hcolon, Option.bind_some,
      Scan.keyword_iff.mpr rfl]
    rfl

/-- A word that begins with a letter stands at a boundary unless another one runs into it. -/
theorem isBoundary_of_errorAt {prev : Option Char} {cs : List Char} (h : ErrorAt cs) :
    Pattern.isBoundary prev cs.head? = !prev.any Pattern.isWordChar := by
  obtain ⟨space, code, back, rfl, -⟩ := h
  show (prev.any Pattern.isWordChar != Pattern.isWordChar 'e') = _
  rw [show Pattern.isWordChar 'e' = true by decide, bne, Bool.beq_eq_decide_eq, Bool.decide_eq_true]

theorem outputHadErrors_iff {output : String} :
    outputHadErrors output = true ↔ NamesError output := by
  rw [outputHadErrors, Scan.search_isSome, NamesError]
  refine exists_congr fun front => exists_congr fun cs => and_congr_right fun _ => ?_
  rw [show Scan.before none front = front.getLast? from Option.or_none]
  constructor
  · intro h
    split at h
    next hboundary =>
      have herror := errorCode_isSome.mp h
      rw [isBoundary_of_errorAt herror, Bool.not_eq_true'] at hboundary
      exact ⟨hboundary, herror⟩
    · cases h
  · rintro ⟨hfront, herror⟩
    rw [if_pos (by rw [isBoundary_of_errorAt herror, hfront]; rfl)]
    exact errorCode_isSome.mpr herror

/-! ### Lines that are read -/

/-- Behind a location there is a named error, after a colon or white space. -/
theorem exists_errorAt_of_location {cs : List Char} {l : Location} (h : location cs = some l) :
    ∃ front c back, cs = front ++ c :: back ∧ Pattern.isWordChar c = false ∧ ErrorAt back := by
  obtain ⟨cs₁, hopen, h⟩ := Option.bind_eq_some_iff.mp h
  obtain ⟨⟨line, cs₂⟩, hline, h⟩ := Option.bind_eq_some_iff.mp h
  obtain ⟨cs₃, hcomma, h⟩ := Option.bind_eq_some_iff.mp h
  obtain ⟨⟨column, cs₄⟩, hcolumn, h⟩ := Option.bind_eq_some_iff.mp h
  obtain ⟨cs₅, hclose, h⟩ := Option.bind_eq_some_iff.mp h
  obtain ⟨code, hcode, -⟩ := Option.bind_eq_some_iff.mp h
  rw [Scan.keyword_iff] at hopen hcomma hclose
  obtain rfl := (Scan.many1_spec hline).1
  obtain rfl := (Scan.many1_spec hcolumn).1
  obtain rfl : cs₂ = _ := hcomma
  obtain rfl : cs₄ = _ := hclose
  obtain ⟨hspace, hwhite⟩ := Scan.many_spec Text.isWhitespace cs₅
  have herror := errorCode_isSome.mp (Option.isSome_of_eq_some hcode)
  generalize Scan.many Text.isWhitespace cs₅ = r at hspace hwhite herror
  obtain ⟨space, back⟩ := r
  rcases List.eq_nil_or_concat space with rfl | ⟨init, c, rfl⟩
  · refine ⟨"(".toList ++ (line ++ (",".toList ++ (column ++ ")".toList))), ':', _, ?_, by decide,
      herror⟩
    simp [hopen, hspace]
  · refine ⟨"(".toList ++ (line ++ (",".toList ++ (column ++ ("):".toList ++ init)))), c, _, ?_,
      Scan.not_isWordChar (hwhite c (by simp)), herror⟩
    simp [hopen, hspace]

theorem exists_location_of_fileThenLocation {file cs : List Char} {r : List Char × Location}
    (h : fileThenLocation file cs = some r) :
    ∃ front back, cs = front ++ back ∧ location back = some r.2 := by
  induction cs generalizing file with
  | nil => cases h
  | cons c cs ih =>
    rw [fileThenLocation] at h
    split at h
    · cases h
    split at h
    next l hl =>
      obtain rfl := Option.some.inj h
      exact ⟨[c], cs, rfl, hl⟩
    · obtain ⟨front, back, rfl, hback⟩ := ih h
      exact ⟨c :: front, back, rfl, hback⟩

/-- A line that gives an entry names an error, wherever it stands in the output. -/
theorem namesError_of_matchLine {output line : String} (hline : line ∈ Text.split '\n' output)
    (h : (matchLine line).isSome = true) : NamesError output := by
  obtain ⟨front, back, hfront, hmatch⟩ := Scan.search_isSome.mp h
  obtain ⟨r, hr⟩ := Option.isSome_iff_exists.mp hmatch
  obtain ⟨file, rest, rfl, hloc⟩ := exists_location_of_fileThenLocation hr
  obtain ⟨loc, c, cs, rfl, hc, herror⟩ := exists_errorAt_of_location hloc
  obtain ⟨piece, hpiece, rfl⟩ := List.mem_map.mp hline
  obtain ⟨before, after, houtput⟩ := Lists.infix_of_mem_splitOn hpiece
  rw [String.toList_ofList] at hfront
  refine ⟨before ++ (front ++ (file ++ loc)) ++ [c], cs ++ after, ?_, ?_, herror.append after⟩
  · rw [← houtput, hfront]
    simp
  · rw [List.getLast?_concat, Option.any_some]
    exact hc

theorem details_eq_nil_iff {e : TscEmitter} {output : String} :
    e.details output = [] ↔ ¬NamesError output := by
  rw [details, ← outputHadErrors_iff]
  by_cases hnamed : outputHadErrors output = true
  · refine iff_of_false ?_ (not_not_intro hnamed)
    split
    · exact List.cons_ne_nil _ _
    · next h => exact fun hnil => h ⟨hnamed, hnil⟩
  · rw [if_neg fun h => hnamed h.1]
    refine iff_of_true ?_ hnamed
    refine List.filterMap_eq_nil_iff.mpr fun line hline => ?_
    rw [detail, Option.map_eq_none_iff, ← Option.not_isSome_iff_eq_none]
    intro h
    exact hnamed (outputHadErrors_iff.mpr (namesError_of_matchLine hline h))

/-- The compiler passes whenever the output names no error, unless it has failed in silence. -/
theorem check_eq_pass_iff {e : TscEmitter} {env : EmitEnv} {taskId : String} {path : AbsPath}
    {p : ToolProcess} : (∃ r, e.check env taskId path p = .ok (r, .pass)) ↔
      (p.Silent → p.Succeeded) ∧ ¬NamesError (p.stdout ++ p.stderr) := by
  rw [← details_eq_nil_iff (e := e), check]
  rcases p.output_cases ("npx tsc --noEmit --project " ++ path.text) with
    ⟨houtput, hsilent⟩ | ⟨⟨message, houtput⟩, hsilent, hfailed⟩
  · rw [houtput, and_iff_right hsilent]
    constructor
    · rintro ⟨r, h⟩
      have hstatus := (Prod.mk.inj (Except.ok.inj h)).2
      by_contra hne
      rw [if_pos hne] at hstatus
      cases hstatus
    · intro h
      refine ⟨_, congrArg Except.ok (Prod.ext rfl ?_)⟩
      exact if_neg (not_not_intro h)
  · rw [houtput]
    exact iff_of_false nofun fun h => hfailed (h.1 hsilent)

theorem status_of_check {e : TscEmitter} {env : EmitEnv} {taskId : String} {path : AbsPath}
    {p : ToolProcess} {r : TypesReport × VerifierStatus}
    (h : e.check env taskId path p = .ok r) : r.2 = .pass ∨ r.2 = .fail := by
  obtain ⟨⟨stdout, stderr⟩, -, rfl⟩ := ExceptRules.map_eq_ok.mp h
  by_cases hdetails : e.details (stdout ++ stderr) = []
  · exact .inl (if_neg (not_not_intro hdetails))
  · exact .inr (if_pos hdetails)

end TscEmitter

end KirkForge
