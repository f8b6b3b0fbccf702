import KirkForge.Theory.OrderedMap
import KirkForge.Theory.Scanning
import KirkForge.Theory.Text

/-!
# Suppression directives

The directives of a scanned file and the findings that they suppress. `computeBlockSuppressions`
records every line that its pattern takes, with nothing but the index of that line
(`get?_computeBlockSuppressions`): an ended block is recorded as one that was left open.
-/

namespace KirkForge.Lint

open Text (trailing)

/-- `[a-z0-9-,\s]` -/
def isListChar (c : Char) : Bool :=
  c.isLower || c.isDigit || c == '-' || c == ',' || Text.isWhitespace c

/-- `exec` of `/keyword\s*(?:([a-z0-9-,\s]+))?\s*$/`: no match, or one with its group. White space
is in the class of the group too, so both go on to the end of the line. -/
def exec (keyword line : String) : Option (Option (List Char)) :=
  (trailing isListChar keyword.toList line.toList).map fun rest =>
    if Text.trimStart rest = [] then none else some (Text.trimStart rest)

def reDisableLine := "kirkforge-lint-disable-line"
def reDisableNext := "kirkforge-lint-disable-next-line"
def reDisableBlock := "kirkforge-lint-disable"
def reEnableBlock := "kirkforge-lint-enable"

/-- `[,\s]` -/
def isSeparator (c : Char) : Bool := c == ',' || Text.isWhitespace c

/-- The names of a list. The empty pieces that are dropped are those inside a run of separators,
too. -/
def parseRuleList : Option (List Char) → List String
  | none => []
  | some raw => ((raw.splitOnP isSeparator).filter (· ≠ [])).map String.ofList

/-- `rules.size === 0 || rules.has(ruleId)` -/
def covers (rules : List String) (ruleId : String) : Bool :=
  rules.isEmpty || rules.contains ruleId

/-- The rules of the directive that a pattern finds in a line. -/
def directive (keyword line : String) : Option (List String) :=
  (exec keyword line).map parseRuleList

/-- A pattern finds a directive that covers the rule. -/
def reads (keyword line ruleId : String) : Bool :=
  (directive keyword line).any (covers · ruleId)

def isSuppressed (ruleId : String) (lineIdx : Nat) (lines : List String)
    (blockSuppressions : OrderedMap Nat (List String)) : Bool :=
  match directive reDisableLine (lines.getD lineIdx "") with
  | some rules => covers rules ruleId
  | none =>
    (0 < lineIdx && reads reDisableNext (lines.getD (lineIdx - 1) "") ruleId) ||
      blockSuppressions.entries.any fun (startIdx, rules) =>
        startIdx ≤ lineIdx && covers rules ruleId

/-- The two variables of `computeBlockSuppressions`, the top of the stack in front. -/
structure BlockScan where
  suppressions : OrderedMap Nat (List String) := ∅
  stack : List (Nat × List String) := []

namespace BlockScan

def scanLine (s : BlockScan) (i : Nat) (line : String) : BlockScan :=
  match directive reDisableBlock line with
  | some rules => { s with stack := (i, rules) :: s.stack }
  | none =>
    match exec reEnableBlock line, s.stack with
    | some _, (idx, rules) :: stack => { suppressions := s.suppressions.set idx rules, stack }
    | _, _ => s

def scan (s : BlockScan) (i : Nat) : List String → BlockScan
  | [] => s
  | line :: rest => scan (s.scanLine i line) (i + 1) rest

end BlockScan

def computeBlockSuppressions (lines : List String) : OrderedMap Nat (List String) :=
  let s := BlockScan.scan {} 0 lines
  -- unclosed blocks remain active for the rest of the file
  s.stack.reverse.foldl (fun suppressions entry => suppressions.set entry.1 entry.2) s.suppressions

/-! ### The findings of a file -/

inductive Severity
  | critical | high | med | low | info
  deriving DecidableEq

inductive Category
  | style | correct | safety | perf | maintain
  deriving DecidableEq

/-- `test` is `pattern.test(line)` at a `lastIndex`, with the `lastIndex` after it. -/
structure LintRule where
  id : String
  category : Category
  severity : Severity
  test : String → Nat → Bool × Nat
  message : String

structure LintFinding where
  file : String
  line : Nat
  rule : String
  category : Category
  severity : Severity
  message : String
  deriving DecidableEq

def maxLines := 200

/-- `relPath.slice(relPath.lastIndexOf("."))`, the last character if there is no dot. -/
def extension (relPath : String) : String :=
  if '.' ∈ relPath.toList then
    String.ofList ('.' :: (relPath.toList.reverse.takeWhile (· ≠ '.')).reverse)
  else String.ofList relPath.toList.getLast?.toList

/-- The file-level checks. -/
def fileFindings (relPath content : String) (lines : List String) : List LintFinding :=
  (if extension relPath ∈ [".sh", ".bash", ".zsh"] ∧ Text.startsWith content "#!" = false then
    [{ file := relPath, line := 1, rule := "require-shebang", category := .style, severity := .med
       message := "Script missing shebang; add #!/bin/bash or similar" }]
  else []) ++
  if maxLines < lines.length then
    [{ file := relPath, line := maxLines + 1, rule := "max-lines", category := .style
       severity := .info
       message := "File has " ++ toString lines.length ++ " lines; maximum is " ++
        toString maxLines }]
  else []

/-- `findings` and `suppressedCount`. -/
structure LintRun where
  findings : List LintFinding := []
  suppressedCount : Nat := 0

def LintRule.finding (rule : LintRule) (relPath : String) (i : Nat) : LintFinding where
  file := relPath
  line := i + 1
  rule := rule.id
  category := rule.category
  severity := rule.severity
  message := rule.message

/-- The loop of a rule over the lines, from line `i` on. -/
def LintRule.scan (rule : LintRule) (relPath : String) (lines : List String)
    (blockSuppressions : OrderedMap Nat (List String)) (i lastIndex : Nat) (run : LintRun) :
    List String → LintRun
  | [] => run
  | line :: rest =>
    let (hit, lastIndex) := rule.test line lastIndex
    let run :=
      if hit = false then run
      else if isSuppressed rule.id i lines blockSuppressions then
        { run with suppressedCount := run.suppressedCount + 1 }
      else { run with findings := run.findings ++ [rule.finding relPath i] }
    rule.scan relPath lines blockSuppressions (i + 1) lastIndex run rest

/-- The body of the loop over the files, for a file that could be read. -/
def lintFile (rules : List LintRule) (run : LintRun) (relPath content : String) : LintRun :=
  let lines := Text.split '\n' content
  let blockSuppressions := computeBlockSuppressions lines
  rules.foldl (fun run rule => rule.scan relPath lines blockSuppressions 0 0 run lines)
    { run with findings := run.findings ++ fileFindings relPath content lines }

/-! ### Findings before the directives -/

/-- A finding before it is known whether it is suppressed; nothing asks that for those of the
file-level checks. -/
structure Candidate where
  finding : LintFinding
  fileLevel : Bool

def Candidate.suppressed (lines : List String) (c : Candidate) : Bool :=
  !c.fileLevel &&
    isSuppressed c.finding.rule (c.finding.line - 1) lines (computeBlockSuppressions lines)

/-- The lines on which the pattern of the rule succeeds. -/
def LintRule.hits (rule : LintRule) (i lastIndex : Nat) : List String → List Nat
  | [] => []
  | line :: rest =>
    let (hit, lastIndex) := rule.test line lastIndex
    if hit = false then rule.hits (i + 1) lastIndex rest
    else i :: rule.hits (i + 1) lastIndex rest

def LintRule.candidates (rule : LintRule) (relPath : String) (lines : List String) :
    List Candidate :=
  (rule.hits 0 0 lines).map fun i => { finding := rule.finding relPath i, fileLevel := false }

def candidates (rules : List LintRule) (relPath content : String) : List Candidate :=
  let lines := Text.split '\n' content
  (fileFindings relPath content lines).map (fun f => { finding := f, fileLevel := true }) ++
    rules.flatMap (LintRule.candidates · relPath lines)

/-- The candidates of a list are reported or counted. -/
def LintRun.settle (run : LintRun) (lines : List String) (cs : List Candidate) : LintRun where
  findings := run.findings ++ (cs.filter fun c => !c.suppressed lines).map (·.finding)
  suppressedCount := run.suppressedCount + cs.countP (·.suppressed lines)

theorem LintRun.settle_append (run : LintRun) (lines : List String) (cs ds : List Candidate) :
    run.settle lines (cs ++ ds) = (run.settle lines cs).settle lines ds := by
  simp [LintRun.settle, Nat.add_assoc]

theorem LintRun.settle_cons (run : LintRun) (lines : List String) (c : Candidate)
    (cs : List Candidate) :
    run.settle lines (c :: cs) =
      (if c.suppressed lines then { run with suppressedCount := run.suppressedCount + 1 }
      else { run with findings := run.findings ++ [c.finding] }).settle lines cs := by
  cases hverdict : c.suppressed lines
  · simp [LintRun.settle, hverdict]
  · simp [LintRun.settle, hverdict, ← Nat.add_assoc]
    exact Nat.add_right_comm ..

theorem LintRule.scan_eq (rule : LintRule) (relPath : String) (lines rest : List String)
    (i lastIndex : Nat) (run : LintRun) :
    rule.scan relPath lines (computeBlockSuppressions lines) i lastIndex run rest =
      run.settle lines ((rule.hits i lastIndex rest).map fun i =>
        { finding := rule.finding relPath i, fileLevel := false }) := by
  induction rest generalizing i lastIndex run with
  | nil => simp [LintRule.scan, LintRule.hits, LintRun.settle]
  | cons line rest ih =>
    rw [LintRule.scan, LintRule.hits]
    cases rule.test line lastIndex with
    | mk hit lastIndex =>
      cases hit with
      | false => exact ih ..
      | true =>
        simp only [Bool.true_eq_false, if_false, List.map_cons, ih]
        rw [LintRun.settle_cons]
        rfl

/-- Of the candidates those that are not suppressed are reported, and the others are counted. -/
theorem lintFile_eq (rules : List LintRule) (run : LintRun) (relPath content : String) :
    lintFile rules run relPath content =
      run.settle (Text.split '\n' content) (candidates rules relPath content) := by
  have hfile (lines : List String) (fs : List LintFinding) :
      run.settle lines (fs.map fun f => { finding := f, fileLevel := true }) =
        { run with findings := run.findings ++ fs } := by
    simp [LintRun.settle, List.filter_map, List.countP_map, Function.comp_def,
      Candidate.suppressed]
  have hrules (lines : List String) (run : LintRun) :
      rules.foldl (fun run rule =>
          rule.scan relPath lines (computeBlockSuppressions lines) 0 0 run lines) run =
        run.settle lines (rules.flatMap (LintRule.candidates · relPath lines)) := by
    induction rules generalizing run with
    | nil => simp [LintRun.settle]
    | cons rule rules ih =>
      rw [List.foldl_cons, List.flatMap_cons, LintRun.settle_append, ih, LintRule.scan_eq]
      rfl
  rw [lintFile, candidates, LintRun.settle_append, hfile, hrules]

/-! ### What is recorded -/

/-- The directive that the block pattern finds in a line of the file. -/
def blockAt (lines : List String) (j : Nat) : Option (List String) :=
  directive reDisableBlock (lines.getD j "")

/-- The first `i` lines are scanned. -/
structure BlockScan.Scanned (lines : List String) (i : Nat) (s : BlockScan) : Prop where
  recorded {j rules} : s.suppressions.get? j = some rules → blockAt lines j = some rules
  stacked {j rules} : (j, rules) ∈ s.stack → blockAt lines j = some rules
  complete {j rules} : j < i → blockAt lines j = some rules →
    s.suppressions.get? j = some rules ∨ (j, rules) ∈ s.stack

namespace BlockScan

theorem Scanned.scanLine {lines : List String} {i : Nat} {s : BlockScan} (h : Scanned lines i s) :
    Scanned lines (i + 1) (s.scanLine i (lines.getD i "")) := by
  rw [BlockScan.scanLine]
  cases hline : directive reDisableBlock (lines.getD i "") with
  | some rules =>
    refine ⟨h.recorded, fun hmem => ?_, fun hj hat => ?_⟩
    · rcases List.mem_cons.mp hmem with heq | hmem
      · cases heq
        exact hline
      · exact h.stacked hmem
    · rcases Nat.lt_succ_iff_lt_or_eq.mp hj with hj | rfl
      · exact (h.complete hj hat).imp_right (List.mem_cons_of_mem _)
      · rw [blockAt, hline] at hat
        cases hat
        exact .inr List.mem_cons_self
  | none =>
    have hcomplete {j rules} (hj : j < i + 1) (hat : blockAt lines j = some rules) :
        s.suppressions.get? j = some rules ∨ (j, rules) ∈ s.stack := by
      rcases Nat.lt_succ_iff_lt_or_eq.mp hj with hj | rfl
      · exact h.complete hj hat
      · rw [blockAt, hline] at hat
        cases hat
    cases henable : exec reEnableBlock (lines.getD i "") with
    | none => exact ⟨h.recorded, h.stacked, hcomplete⟩
    | some raw =>
      obtain ⟨suppressions, stack⟩ := s
      cases stack with
      | nil => exact ⟨h.recorded, h.stacked, hcomplete⟩
      | cons entry stack =>
        obtain ⟨idx, rules⟩ := entry
        have hidx : blockAt lines idx = some rules := h.stacked List.mem_cons_self
        refine ⟨fun {j rules'} hget => ?_, fun hmem => h.stacked (List.mem_cons_of_mem _ hmem),
          fun {j rules'} hj hat => ?_⟩
        · rw [OrderedMap.get?_set] at hget
          split at hget
          next heq => rw [← heq, hidx, hget]
          · exact h.recorded hget
        · rcases hcomplete hj hat with hget | hmem
          · refine .inl ?_
            rw [OrderedMap.get?_set]
            split
            next heq => rw [← hidx, heq, hat]
            · exact hget
          · rcases List.mem_cons.mp hmem with heq | hmem
            · cases heq
              exact .inl (OrderedMap.get?_set_self ..)
            · exact .inr hmem

theorem Scanned.scan {front back : List String} {s : BlockScan}
    (h : Scanned (front ++ back) front.length s) :
    Scanned (front ++ back) (front ++ back).length (s.scan front.length back) := by
  induction back generalizing front s with
  | nil => simpa [BlockScan.scan] using h
  | cons line back ih =>
    have hstep := h.scanLine
    have hline : (front ++ line :: back).getD front.length "" = line := by simp
    rw [hline] at hstep
    have hcons : front ++ line :: back = (front ++ [line]) ++ back := by simp
    rw [BlockScan.scan]
    rw [hcons] at hstep ⊢
    have hlength : (front ++ [line]).length = front.length + 1 := List.length_append
    rw [← hlength] at hstep ⊢
    exact ih hstep

end BlockScan

theorem get?_foldl_set {f : Nat → Option (List String)} {l : List (Nat × List String)}
    {m : OrderedMap Nat (List String)} (hl : ∀ e ∈ l, f e.1 = some e.2)
    (hm : ∀ {j rules}, m.get? j = some rules → f j = some rules) {j : Nat} {rules : List String} :
    (l.foldl (fun m e => m.set e.1 e.2) m).get? j = some rules ↔
      m.get? j = some rules ∨ (j, rules) ∈ l := by
  induction l generalizing m with
  | nil => simp
  | cons e l ih =>
    obtain ⟨idx, stored⟩ := e
    obtain ⟨he, hl⟩ := List.forall_mem_cons.mp hl
    have hset {j rules} : (m.set idx stored).get? j = some rules ↔
        m.get? j = some rules ∨ (j, rules) = (idx, stored) := by
      rw [OrderedMap.get?_set, Prod.mk.injEq]
      split
      next heq =>
        subst heq
        refine ⟨fun h => .inr ⟨rfl, (Option.some.inj h).symm⟩, ?_⟩
        rintro (h | ⟨-, rfl⟩)
        · exact he.symm.trans (hm h)
        · rfl
      next hne =>
        refine ⟨.inl, ?_⟩
        rintro (h | ⟨rfl, -⟩)
        · exact h
        · exact absurd rfl hne
    rw [List.foldl_cons, ih hl, hset, List.mem_cons, or_assoc]
    intro j rules h
    rcases hset.mp h with h | heq
    · exact hm h
    · cases heq
      exact he

theorem BlockScan.scanned_scan (lines : List String) :
    Scanned lines lines.length (BlockScan.scan {} 0 lines) := by
  have hinit : Scanned ([] ++ lines) 0 {} :=
    ⟨fun hget => (nomatch hget), fun hmem => (nomatch hmem),
      fun hj => absurd hj (Nat.not_lt_zero _)⟩
  exact Scanned.scan hinit

/-- Every line that the pattern takes is recorded, whether a later line ends the block or not. -/
theorem get?_computeBlockSuppressions (lines : List String) (j : Nat) :
    (computeBlockSuppressions lines).get? j = blockAt lines j := by
  have h := BlockScan.scanned_scan lines
  have hget {rules} : (computeBlockSuppressions lines).get? j = some rules ↔
      blockAt lines j = some rules := by
    rw [computeBlockSuppressions, get?_foldl_set (f := blockAt lines)
      (fun e he => h.stacked (List.mem_reverse.mp he)) h.recorded, List.mem_reverse]
    refine ⟨fun hor => hor.elim h.recorded h.stacked, fun hat => h.complete ?_ hat⟩
    refine Nat.lt_of_not_le fun hlen => ?_
    rw [blockAt, List.getD_eq_getElem?_getD, List.getElem?_eq_none hlen] at hat
    cases hat
  exact Option.ext fun rules => hget

/-- The verdict on a finding, with the first pattern that decides. -/
theorem isSuppressed_computeBlockSuppressions (ruleId : String) (i : Nat) (lines : List String) :
    isSuppressed ruleId i lines (computeBlockSuppressions lines) = true ↔
      match directive reDisableLine (lines.getD i "") with
      | some rules => covers rules ruleId = true
      | none => (0 < i ∧ reads reDisableNext (lines.getD (i - 1) "") ruleId = true) ∨
          ∃ j ≤ i, reads reDisableBlock (lines.getD j "") ruleId = true := by
  rw [isSuppressed]
  cases directive reDisableLine (lines.getD i "") with
  | some rules => rfl
  | none =>
    simp only [Bool.or_eq_true, Bool.and_eq_true, decide_eq_true_eq, List.any_eq_true,
      Prod.exists, OrderedMap.mem_entries_iff, get?_computeBlockSuppressions, reads,
      Option.any_eq_true, blockAt]
    refine or_congr_right ⟨?_, ?_⟩
    · rintro ⟨j, rules, hat, hj, hcovers⟩
      exact ⟨j, hj, rules, hat, hcovers⟩
    · rintro ⟨j, hj, rules, hat, hcovers⟩
      exact ⟨j, rules, hat, hj, hcovers⟩

end KirkForge.Lint
