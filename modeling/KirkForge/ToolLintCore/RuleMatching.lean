import KirkForge.Theory.Regex
import KirkForge.ToolLintCore.Suppression

/-!
# What a rule sees of a line

The loop of `engine.ts` in which a rule tests its pattern on one line after the other. The object
with the pattern is made anew for each file, but not for each line, and a global or sticky one goes
on where its last match ended (`seesAfresh_iff`).
-/

namespace KirkForge.Lint

/-- A regular expression by its flags and by its matcher, which gives the end of a match that begins
at an index. Indices count code units. -/
structure RegExp where
  global : Bool := false
  sticky : Bool := false
  unicode : Bool := false
  matchAt : String → Nat → Option Nat

namespace RegExp

variable (re : RegExp)

/-- The indices at which a character begins, and the end. -/
def boundaries (s : String) : List Nat :=
  s.toList.scanl (fun i c => if c.toNat < 0x10000 then i + 1 else i + 2) 0

/-- The indices at which a match may begin: with the flag `u` none is within a character. -/
def starts (s : String) : List Nat :=
  if re.unicode then boundaries s else List.range (Text.units s + 1)

/-- The index from which the matcher reads. -/
def inputIndex (s : String) (lastIndex : Nat) : Nat :=
  ((re.starts s).filter (· ≤ lastIndex)).getLast?.getD 0

/-- The end of the match that is found from an index on. -/
def find (s : String) (lastIndex : Nat) : Option Nat :=
  if Text.units s < lastIndex then none
  else if re.sticky then re.matchAt s (re.inputIndex s lastIndex)
  else ((re.starts s).filter (re.inputIndex s lastIndex ≤ ·)).findSome? (re.matchAt s)

/-- The object keeps where its last match ended. -/
def stateful : Bool := re.global || re.sticky

/-- `re.test(s)` at a `lastIndex`, with the `lastIndex` after it -/
def test (s : String) (lastIndex : Nat) : Bool × Nat :=
  let found := re.find s (if re.stateful then lastIndex else 0)
  (found.isSome, if re.stateful then found.getD 0 else lastIndex)

/-- An expression without the flag `u`. -/
def ofUnits (r : Regex.Units) (global sticky : Bool) : RegExp where
  global := global
  sticky := sticky
  matchAt s i :=
    let units := Text.utf16 s
    (Regex.exec Regex.isWord r (units.take i).getLast? (units.drop i)).map fun c =>
      units.length - c.rest.length

end RegExp

/-- A rule as the registry has it. -/
structure PatternRule where
  id : String
  category : Category
  severity : Severity
  pattern : RegExp
  message : String

/-- The rule with its pattern as a new object. -/
def PatternRule.compile (rule : PatternRule) : LintRule where
  id := rule.id
  category := rule.category
  severity := rule.severity
  test := rule.pattern.test
  message := rule.message

/-- The lines, from line `i` on, that a pattern matches when it is tested on each alone. -/
def RegExp.alone (re : RegExp) (i : Nat) : List String → List Nat
  | [] => []
  | line :: rest => if (re.test line 0).1 then i :: re.alone (i + 1) rest else re.alone (i + 1) rest

/-- The pattern succeeds on the lines that it matches alone, and in every scan, whatever was found
before, these are reported or counted as suppressed. -/
structure SeesAfresh (rule : PatternRule) (content : String) : Prop where
  lines : rule.compile.hits 0 0 (Text.split '\n' content) =
    rule.pattern.alone 0 (Text.split '\n' content)
  settled : ∀ relPath run, let lines := Text.split '\n' content
    rule.compile.scan relPath lines (computeBlockSuppressions lines) 0 0 run lines =
      run.settle lines ((rule.pattern.alone 0 lines).map fun i =>
        { finding := rule.compile.finding relPath i, fileLevel := false })

/-- A rule with `/TODO/g`. -/
def todo : PatternRule where
  id := "no-todo"
  category := .maintain
  severity := .low
  pattern := .ofUnits (Regex.literal false "TODO") true false
  message := "TODO"

/-- In a file with two equal lines only the first one is found. -/
theorem second_line_missed : ¬SeesAfresh todo "TODO\nTODO" := by
  intro h
  exact absurd h.lines (by decide)

/-! ### When every line is seen afresh -/

namespace RegExp

variable {re : RegExp}

/-- In each run of lines that match alone, a line matches from where the match before has ended;
for a sticky pattern nothing matches there on the line after the run. -/
def Fresh (re : RegExp) : (lastIndex : Nat) → List String → Prop
  | _, [] => True
  | lastIndex, line :: rest =>
    match re.find line 0, re.find line lastIndex with
    | none, found => (re.sticky = true → found = none) ∧ Fresh re 0 rest
    | some _, some e => Fresh re e rest
    | some _, none => False

theorem test_zero (s : String) : (re.test s 0).1 = (re.find s 0).isSome := by
  rw [test, ite_self]

theorem inputIndex_zero (s : String) : re.inputIndex s 0 = 0 := by
  rw [inputIndex]
  cases hlast : ((re.starts s).filter (· ≤ 0)).getLast? with
  | none => rfl
  | some i =>
    have hi := (List.mem_filter.mp (List.mem_of_getLast? hlast)).2
    exact Nat.le_zero.mp (of_decide_eq_true hi)

/-- What is found from an index on is found from the beginning, unless the pattern is sticky. -/
theorem find_zero_of_find (hsticky : re.sticky = false) {s : String} {i : Nat}
    (h : (re.find s i).isSome) : (re.find s 0).isSome := by
  unfold find at h ⊢
  rw [hsticky] at h ⊢
  simp only [Bool.false_eq_true, if_false] at h ⊢
  split at h
  · cases h
  rw [if_neg (Nat.not_lt_zero _), inputIndex_zero]
  obtain ⟨start, hstart, hmatch⟩ := List.findSome?_isSome_iff.mp h
  apply List.findSome?_isSome_iff.mpr
  exact ⟨start, List.mem_filter.mpr ⟨(List.mem_filter.mp hstart).1, decide_eq_true (Nat.zero_le _)⟩,
    hmatch⟩

theorem le_of_mem_alone {i j : Nat} {lines : List String} (h : j ∈ re.alone i lines) : i ≤ j := by
  induction lines generalizing i with
  | nil => cases h
  | cons line rest ih =>
    rw [alone] at h
    split at h
    · obtain rfl | h := List.mem_cons.mp h
      · exact le_rfl
      · exact Nat.le_of_succ_le (ih h)
    · exact Nat.le_of_succ_le (ih h)

end RegExp

theorem LintRule.le_of_mem_hits {rule : LintRule} {i j lastIndex : Nat} {lines : List String}
    (h : j ∈ rule.hits i lastIndex lines) : i ≤ j := by
  induction lines generalizing i lastIndex with
  | nil => cases h
  | cons line rest ih =>
    rw [LintRule.hits] at h
    cases htest : rule.test line lastIndex with
    | mk hit next =>
      rw [htest] at h
      cases hit with
      | false => exact Nat.le_of_succ_le (ih h)
      | true =>
        obtain rfl | h := List.mem_cons.mp h
        · exact le_rfl
        · exact Nat.le_of_succ_le (ih h)

namespace PatternRule

variable {rule : PatternRule}

/-- A pattern without state starts anew on each line. -/
theorem hits_of_not_stateful (h : rule.pattern.stateful = false) (i lastIndex : Nat)
    (lines : List String) : rule.compile.hits i lastIndex lines = rule.pattern.alone i lines := by
  induction lines generalizing i lastIndex with
  | nil => rfl
  | cons line rest ih =>
    have htest (last : Nat) : rule.pattern.test line last =
        ((rule.pattern.find line 0).isSome, last) := by
      rw [RegExp.test, h]
      rfl
    have hcompile : rule.compile.test line lastIndex = _ := htest lastIndex
    rw [LintRule.hits, RegExp.alone, htest, hcompile]
    simp only [ih]
    cases (rule.pattern.find line 0).isSome <;> rfl

theorem hits_cons (h : rule.pattern.stateful = true) (i lastIndex : Nat) (line : String)
    (rest : List String) : rule.compile.hits i lastIndex (line :: rest) =
      match rule.pattern.find line lastIndex with
      | none => rule.compile.hits (i + 1) 0 rest
      | some e => i :: rule.compile.hits (i + 1) e rest := by
  have htest : rule.compile.test line lastIndex =
      ((rule.pattern.find line lastIndex).isSome, (rule.pattern.find line lastIndex).getD 0) := by
    change rule.pattern.test line lastIndex = _
    simp only [RegExp.test, h, if_true]
  rw [LintRule.hits, htest]
  cases rule.pattern.find line lastIndex <;> rfl

theorem alone_cons (i : Nat) (line : String) (rest : List String) :
    rule.pattern.alone i (line :: rest) =
      match rule.pattern.find line 0 with
      | none => rule.pattern.alone (i + 1) rest
      | some _ => i :: rule.pattern.alone (i + 1) rest := by
  rw [RegExp.alone, RegExp.test_zero]
  cases rule.pattern.find line 0 <;> rfl

/-- The run over the lines, by the lines that are left. -/
theorem hits_eq_alone_iff (h : rule.pattern.stateful = true) (i lastIndex : Nat)
    (lines : List String) :
    rule.compile.hits i lastIndex lines = rule.pattern.alone i lines ↔
      rule.pattern.Fresh lastIndex lines := by
  induction lines generalizing i lastIndex with
  | nil => exact ⟨fun _ => trivial, fun _ => rfl⟩
  | cons line rest ih =>
    have hhits (last : Nat) : i ∉ rule.compile.hits (i + 1) last rest :=
      fun hi => Nat.not_succ_le_self i (LintRule.le_of_mem_hits hi)
    have halone : i ∉ rule.pattern.alone (i + 1) rest :=
      fun hi => Nat.not_succ_le_self i (RegExp.le_of_mem_alone hi)
    rw [hits_cons h, alone_cons, RegExp.Fresh]
    cases hzero : rule.pattern.find line 0 with
    | none =>
      cases hfound : rule.pattern.find line lastIndex with
      | none =>
        refine (ih (i + 1) 0).trans ?_
        exact ⟨fun hrest => ⟨fun _ => rfl, hrest⟩, fun hfresh => hfresh.2⟩
      | some e =>
        constructor
        · intro heq
          change i :: rule.compile.hits (i + 1) e rest = rule.pattern.alone (i + 1) rest at heq
          rw [← heq] at halone
          exact absurd List.mem_cons_self halone
        · rintro ⟨hnone, -⟩
          cases hsticky : rule.pattern.sticky with
          | true => cases hnone hsticky
          | false =>
            have hfind := RegExp.find_zero_of_find hsticky (Option.isSome_of_mem hfound)
            rw [hzero] at hfind
            cases hfind
    | some e' =>
      cases hfound : rule.pattern.find line lastIndex with
      | none =>
        constructor
        · intro heq
          change rule.compile.hits (i + 1) 0 rest = i :: rule.pattern.alone (i + 1) rest at heq
          have hnot := hhits 0
          rw [heq] at hnot
          exact absurd List.mem_cons_self hnot
        · exact False.elim
      | some e =>
        refine Iff.trans ?_ (ih (i + 1) e)
        exact ⟨fun heq => (List.cons.inj heq).2, congrArg (i :: ·)⟩

end PatternRule

/-- Every line is seen afresh by a pattern without state, and by another one exactly if it matches
again wherever it goes on. -/
theorem seesAfresh_iff (rule : PatternRule) (content : String) :
    SeesAfresh rule content ↔
      rule.pattern.stateful = false ∨ rule.pattern.Fresh 0 (Text.split '\n' content) := by
  have hsettled (hlines : rule.compile.hits 0 0 (Text.split '\n' content) =
      rule.pattern.alone 0 (Text.split '\n' content)) : SeesAfresh rule content := by
    refine ⟨hlines, fun relPath run => (LintRule.scan_eq ..).trans ?_⟩
    rw [hlines]
  cases hstate : rule.pattern.stateful with
  | false => exact ⟨fun _ => .inl rfl, fun _ => hsettled (rule.hits_of_not_stateful hstate _ _ _)⟩
  | true =>
    have hiff := rule.hits_eq_alone_iff hstate 0 0 (Text.split '\n' content)
    constructor
    · intro h
      exact .inr (hiff.mp h.lines)
    · rintro (h | h)
      · cases h
      · exact hsettled (hiff.mpr h)

end KirkForge.Lint
