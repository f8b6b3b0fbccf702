import KirkForge.Theory.Lists
import KirkForge.ToolLintCore.Suppression

/-!
# Blocks of suppressed findings

A block goes from its `kirkforge-lint-disable` to the `kirkforge-lint-enable` that closes it, blocks
inside it put aside, and to the end of the file if there is none. What the engine suppresses beyond
that and what it leaves out is decided by three things that it does not tell apart or look at: the
end of a block, the line-scoped directives that the block pattern takes too, and a line-scoped
directive for other rules inside a block.
-/

namespace KirkForge.Lint

open Text (trailing)

/-- What the block pattern takes there is a directive for one line. -/
def lineScoped (line : String) : Bool :=
  (trailing isListChar reDisableBlock.toList line.toList).any fun rest =>
    "-line".toList.isPrefixOf rest || "-next-line".toList.isPrefixOf rest

/-- The rules of the directive that opens a block at the line. -/
def blockDirective (line : String) : Option (List String) :=
  if lineScoped line then none else directive reDisableBlock line

/-- How many lines below comes the end of a block that has `depth` open blocks inside. -/
def enableOffset (depth : Nat) : List String → Option Nat
  | [] => none
  | line :: rest =>
    if (blockDirective line).isSome then (enableOffset (depth + 1) rest).map (· + 1)
    else if (exec reEnableBlock line).isSome then
      if depth = 0 then some 0 else (enableOffset (depth - 1) rest).map (· + 1)
    else (enableOffset depth rest).map (· + 1)

/-- The line of the enable that matches the directive of line `j`. -/
def matchingEnable (lines : List String) (j : Nat) : Option Nat :=
  (enableOffset 0 (lines.drop (j + 1))).map (j + 1 + ·)

/-- Line `i` lies in a block that covers the rule. -/
def Covered (lines : List String) (ruleId : String) (i : Nat) : Prop :=
  ∃ j ≤ i, (blockDirective (lines.getD j "")).any (covers · ruleId) = true ∧
    (matchingEnable lines j).all (i ≤ ·) = true

instance (lines : List String) (ruleId : String) (i : Nat) : Decidable (Covered lines ruleId i) :=
  inferInstanceAs (Decidable (∃ j ≤ i, _))

/-- A directive for line `i` alone covers the rule. -/
def LineExempt (lines : List String) (ruleId : String) (i : Nat) : Prop :=
  reads reDisableLine (lines.getD i "") ruleId = true ∨
    0 < i ∧ reads reDisableNext (lines.getD (i - 1) "") ruleId = true

instance (lines : List String) (ruleId : String) (i : Nat) :
    Decidable (LineExempt lines ruleId i) :=
  inferInstanceAs (Decidable (_ ∨ _))

/-- A directive of the line names other rules for the line. -/
def Overridden (lines : List String) (ruleId : String) (i : Nat) : Prop :=
  (directive reDisableLine (lines.getD i "")).any (!covers · ruleId) = true

/-- Line `j` has a directive with the rule that is for one line or opens a block that ends above
line `i`. -/
def Spent (lines : List String) (ruleId : String) (i j : Nat) : Prop :=
  reads reDisableBlock (lines.getD j "") ruleId = true ∧
    (lineScoped (lines.getD j "") = true ∨ (matchingEnable lines j).any (· < i) = true)

namespace Candidate

/-- The index of its line. -/
def idx (c : Candidate) : Nat := c.finding.line - 1

/-- A finding in a block for its rule is suppressed, and one that is neither in such a block nor
exempted by a directive for its line is reported. -/
structure SuppressedByBlocks (lines : List String) (c : Candidate) : Prop where
  covered : Covered lines c.finding.rule c.idx → c.suppressed lines = true
  uncovered : c.suppressed lines = true → Covered lines c.finding.rule c.idx ∨
    c.fileLevel = false ∧ LineExempt lines c.finding.rule c.idx

theorem suppressed_of_fileLevel {lines : List String} {c : Candidate} (h : c.fileLevel = true) :
    c.suppressed lines = false := by
  rw [suppressed, h]
  rfl

theorem suppressed_iff {lines : List String} {c : Candidate} (h : c.fileLevel = false) :
    c.suppressed lines = true ↔
      match directive reDisableLine (lines.getD c.idx "") with
      | some rules => covers rules c.finding.rule = true
      | none =>
        (0 < c.idx ∧ reads reDisableNext (lines.getD (c.idx - 1) "") c.finding.rule = true) ∨
          ∃ j ≤ c.idx, reads reDisableBlock (lines.getD j "") c.finding.rule = true := by
  rw [suppressed, h, Bool.not_false, Bool.true_and]
  exact isSuppressed_computeBlockSuppressions ..

end Candidate

variable {lines : List String} {ruleId : String} {i : Nat}

theorem reads_of_blockDirective {line : String}
    (h : (blockDirective line).any (covers · ruleId) = true) :
    lineScoped line = false ∧ reads reDisableBlock line ruleId = true := by
  rw [blockDirective] at h
  split at h
  · cases h
  next hscoped => exact ⟨Bool.not_eq_true _ ▸ hscoped, h⟩

/-- The directives that the block pattern takes above a line: those of the blocks that it lies in
are spent for no reason, all others are. -/
theorem exists_reads_iff : (∃ j ≤ i, reads reDisableBlock (lines.getD j "") ruleId = true) ↔
    Covered lines ruleId i ∨ ∃ j ≤ i, Spent lines ruleId i j := by
  constructor
  · rintro ⟨j, hj, hreads⟩
    cases hscoped : lineScoped (lines.getD j "") with
    | true => exact .inr ⟨j, hj, hreads, .inl hscoped⟩
    | false =>
      cases hended : (matchingEnable lines j).any (· < i) with
      | true => exact .inr ⟨j, hj, hreads, .inr hended⟩
      | false =>
        refine .inl ⟨j, hj, ?_, ?_⟩
        · rw [blockDirective, hscoped]
          exact hreads
        · cases hmatch : matchingEnable lines j with
          | none => rfl
          | some k =>
            rw [hmatch] at hended
            simpa using hended
  · rintro (⟨j, hj, hblock, -⟩ | ⟨j, hj, hreads, -⟩)
    · exact ⟨j, hj, (reads_of_blockDirective hblock).2⟩
    · exact ⟨j, hj, hreads⟩

theorem Overridden.not_suppressed {c : Candidate} (hrule : c.fileLevel = false)
    (h : Overridden lines c.finding.rule c.idx) : ¬c.suppressed lines = true := by
  rw [Candidate.suppressed_iff hrule]
  obtain ⟨rules, hrules, hcovers⟩ := Option.any_eq_true _ _ |>.mp h
  rw [hrules]
  simpa using hcovers

/-- A finding whose line has no directive for other rules. -/
theorem suppressed_iff_of_not_overridden {c : Candidate} (hrule : c.fileLevel = false)
    (h : ¬Overridden lines c.finding.rule c.idx) :
    c.suppressed lines = true ↔ LineExempt lines c.finding.rule c.idx ∨
      ∃ j ≤ c.idx, reads reDisableBlock (lines.getD j "") c.finding.rule = true := by
  rw [Candidate.suppressed_iff hrule, LineExempt]
  cases hline : directive reDisableLine (lines.getD c.idx "") with
  | none =>
    have hreads : reads reDisableLine (lines.getD c.idx "") c.finding.rule = false := by
      rw [reads, hline]
      rfl
    rw [hreads, or_assoc]
    exact (or_iff_right Bool.false_ne_true).symm
  | some rules =>
    have hcovers : covers rules c.finding.rule = true := by
      rw [Overridden, hline] at h
      simpa using h
    have hreads : reads reDisableLine (lines.getD c.idx "") c.finding.rule = true := by
      rw [reads, hline]
      exact hcovers
    exact iff_of_true hcovers (.inl (.inl hreads))

/-- The directives of blocks are obeyed at a finding if and only if, in a block for its rule, the
finding is one of a rule and no directive of its line names other rules, and, outside of those
blocks, it is not suppressed by what the line-scoped directives and the ended blocks leave. -/
theorem suppressedByBlocks_iff (lines : List String) (c : Candidate) :
    c.SuppressedByBlocks lines ↔
      (Covered lines c.finding.rule c.idx →
        c.fileLevel = false ∧ ¬Overridden lines c.finding.rule c.idx) ∧
      (¬Covered lines c.finding.rule c.idx →
        c.fileLevel = true ∨ LineExempt lines c.finding.rule c.idx ∨
          Overridden lines c.finding.rule c.idx ∨
          ∀ j ≤ c.idx, ¬Spent lines c.finding.rule c.idx j) := by
  cases hlevel : c.fileLevel with
  | true =>
    have hreported : ¬c.suppressed lines = true := by
      rw [Candidate.suppressed_of_fileLevel hlevel]
      exact Bool.false_ne_true
    constructor
    · intro h
      exact ⟨fun hcovered => absurd (h.covered hcovered) hreported, fun _ => .inl rfl⟩
    · rintro ⟨hcovered, -⟩
      exact ⟨fun h => (Bool.false_ne_true (hcovered h).1.symm).elim, fun h => absurd h hreported⟩
  | false =>
    by_cases hover : Overridden lines c.finding.rule c.idx
    · have hreported := hover.not_suppressed hlevel
      constructor
      · intro h
        exact ⟨fun hcovered => absurd (h.covered hcovered) hreported,
          fun _ => .inr (.inr (.inl hover))⟩
      · rintro ⟨hcovered, -⟩
        exact ⟨fun h => absurd hover (hcovered h).2, fun h => absurd h hreported⟩
    · have hverdict := suppressed_iff_of_not_overridden hlevel hover
      rw [exists_reads_iff] at hverdict
      constructor
      · intro h
        refine ⟨fun _ => ⟨rfl, hover⟩, fun huncovered => ?_⟩
        by_cases hexempt : LineExempt lines c.finding.rule c.idx
        · exact .inr (.inl hexempt)
        · refine .inr (.inr (.inr fun j hj hspent => ?_))
          rcases h.uncovered (hverdict.mpr (.inr (.inr ⟨j, hj, hspent⟩))) with h | h
          · exact huncovered h
          · exact hexempt h.2
      · rintro ⟨-, huncovered⟩
        refine ⟨fun hcovered => hverdict.mpr (.inr (.inl hcovered)), fun hsuppressed => ?_⟩
        rcases hverdict.mp hsuppressed with hexempt | hcovered | ⟨j, hj, hspent⟩
        · exact .inr ⟨hlevel, hexempt⟩
        · exact .inl hcovered
        · by_cases hcovered : Covered lines c.finding.rule c.idx
          · exact .inl hcovered
          · rcases huncovered hcovered with h | h | h | h
            · exact (Bool.false_ne_true h).elim
            · exact .inr ⟨hlevel, h⟩
            · exact absurd h hover
            · exact absurd hspent (h j hj)

/-! ### The stack of the scanner -/

namespace BlockScan

/-- The indices on the stack are below `i`, and fall from its top on. -/
def Descending (i : Nat) (s : BlockScan) : Prop :=
  (i :: s.stack.map Prod.fst).Pairwise (· > ·)

theorem Descending.succ {i : Nat} {s : BlockScan} (h : s.Descending i) : s.Descending (i + 1) := by
  obtain ⟨hhead, htail⟩ := List.pairwise_cons.mp h
  exact List.pairwise_cons.mpr ⟨fun j hj => Nat.lt_succ_of_lt (hhead j hj), htail⟩

/-- What a line does to the stack. -/
theorem scanLine_cases (s : BlockScan) (i : Nat) (line : String) :
    (∃ rules, directive reDisableBlock line = some rules ∧
      (s.scanLine i line).stack = (i, rules) :: s.stack) ∨
    (directive reDisableBlock line = none ∧ (exec reEnableBlock line).isSome = true ∧
      (s.scanLine i line).stack = s.stack.tail) ∨
    (directive reDisableBlock line = none ∧ (exec reEnableBlock line).isSome = false ∧
      (s.scanLine i line).stack = s.stack) := by
  obtain ⟨suppressions, stack⟩ := s
  rw [scanLine]
  cases directive reDisableBlock line with
  | some rules => exact .inl ⟨rules, rfl, rfl⟩
  | none =>
    cases exec reEnableBlock line with
    | none => exact .inr (.inr ⟨rfl, rfl, rfl⟩)
    | some raw => cases stack <;> exact .inr (.inl ⟨rfl, rfl, rfl⟩)

theorem Descending.scanLine {i : Nat} {s : BlockScan} (h : s.Descending i) (line : String) :
    (s.scanLine i line).Descending (i + 1) := by
  rw [Descending]
  rcases s.scanLine_cases i line with ⟨rules, -, hstack⟩ | ⟨-, -, hstack⟩ | ⟨-, -, hstack⟩
  · rw [hstack]
    refine List.pairwise_cons.mpr ⟨fun j hj => ?_, h⟩
    rcases List.mem_cons.mp hj with rfl | hj
    · exact Nat.lt_succ_self _
    · exact Nat.lt_succ_of_lt ((List.pairwise_cons.mp h).1 j hj)
  · rw [hstack]
    refine h.succ.sublist (List.Sublist.cons_cons _ ?_)
    exact (List.tail_sublist _).map _
  · rw [hstack]
    exact h.succ

/-- What is on the stack at the end was there before or comes from a later line. -/
theorem mem_stack_scan {i : Nat} {s : BlockScan} {rest : List String} {e : Nat × List String}
    (h : e ∈ (s.scan i rest).stack) : e ∈ s.stack ∨ i ≤ e.1 := by
  induction rest generalizing i s with
  | nil => exact .inl h
  | cons line rest ih =>
    rcases ih h with h | h
    · rcases s.scanLine_cases i line with ⟨rules, -, hstack⟩ | ⟨-, -, hstack⟩ | ⟨-, -, hstack⟩
      · rw [hstack] at h
        rcases List.mem_cons.mp h with rfl | h
        · exact .inr (Nat.le_refl i)
        · exact .inl h
      · rw [hstack] at h
        exact .inl (List.mem_of_mem_tail h)
      · rw [hstack] at h
        exact .inl h
    · exact .inr (Nat.le_of_succ_le h)

/-- An entry with `depth` entries above stays on the stack if no line below closes it. -/
theorem mem_stack_scan_iff {i depth : Nat} {s : BlockScan} {rest : List String}
    {e : Nat × List String} (hrest : ∀ line ∈ rest, lineScoped line = false)
    (h : s.Descending i) (he : s.stack[depth]? = some e) :
    e ∈ (s.scan i rest).stack ↔ enableOffset depth rest = none := by
  induction rest generalizing i s depth with
  | nil => exact iff_of_true (List.mem_of_getElem? he) rfl
  | cons line rest ih =>
    obtain ⟨hline, hrest⟩ := List.forall_mem_cons.mp hrest
    have hblock : blockDirective line = directive reDisableBlock line := by
      rw [blockDirective, hline]
      rfl
    have hstep := h.scanLine line
    rw [scan, enableOffset, hblock]
    rcases s.scanLine_cases i line with
      ⟨rules, hdirective, hstack⟩ | ⟨hdirective, henable, hstack⟩ | ⟨hdirective, henable, hstack⟩
    · rw [hdirective, Option.isSome_some, if_pos rfl, Option.map_eq_none_iff]
      refine ih hrest hstep ?_
      rw [hstack]
      exact he
    · rw [hdirective, henable, Option.isSome_none, if_neg Bool.false_ne_true, if_pos rfl]
      cases depth with
      | zero =>
        refine iff_of_false (fun hmem => ?_) (Option.some_ne_none 0)
        obtain ⟨suppressions, stack⟩ := s
        obtain ⟨top, stack⟩ := stack
        · cases he
        cases he
        obtain ⟨hbelow, hsorted⟩ := List.pairwise_cons.mp h
        have htop : e.1 < i := hbelow e.1 List.mem_cons_self
        rcases mem_stack_scan hmem with hmem | hle
        · rw [hstack] at hmem
          exact Nat.lt_irrefl _
            ((List.pairwise_cons.mp hsorted).1 e.1 (List.mem_map_of_mem (f := Prod.fst) hmem))
        · exact Nat.lt_irrefl _ (Nat.lt_of_lt_of_le (Nat.lt_succ_of_lt htop) hle)
      | succ depth =>
        rw [if_neg (Nat.succ_ne_zero depth), Option.map_eq_none_iff]
        refine ih hrest hstep ?_
        rw [hstack, List.getElem?_tail]
        exact he
    · rw [hdirective, henable, Option.isSome_none, if_neg Bool.false_ne_true,
        if_neg Bool.false_ne_true, Option.map_eq_none_iff]
      refine ih hrest hstep ?_
      rw [hstack]
      exact he

theorem scan_append (s : BlockScan) (i : Nat) (front back : List String) :
    s.scan i (front ++ back) = (s.scan i front).scan (i + front.length) back := by
  induction front generalizing s i with
  | nil => rfl
  | cons line front ih =>
    rw [List.cons_append, scan, ih, scan, List.length_cons, Nat.add_right_comm, Nat.add_assoc]

theorem Descending.scan {i : Nat} {s : BlockScan} (h : s.Descending i) (rest : List String) :
    (s.scan i rest).Descending (i + rest.length) := by
  induction rest generalizing i s with
  | nil => exact h
  | cons line rest ih =>
    rw [List.length_cons, Nat.add_comm rest.length, ← Nat.add_assoc]
    exact ih (h.scanLine line)

end BlockScan

/-- Without directives for one line, what is on the stack at the end of the file are the blocks that
no line ends: the scanner knows them, and records the others like them. -/
theorem mem_stack_iff {lines : List String} (hlines : ∀ line ∈ lines, lineScoped line = false)
    {j : Nat} {rules : List String} :
    (j, rules) ∈ (BlockScan.scan {} 0 lines).stack ↔
      blockDirective (lines.getD j "") = some rules ∧ matchingEnable lines j = none := by
  suffices h : directive reDisableBlock (lines.getD j "") = some rules →
      ((j, rules) ∈ (BlockScan.scan {} 0 lines).stack ↔
        blockDirective (lines.getD j "") = some rules ∧ matchingEnable lines j = none) by
    constructor
    · intro hmem
      exact (h ((BlockScan.scanned_scan lines).stacked hmem)).mp hmem
    · rintro ⟨hblock, hopen⟩
      refine (h ?_).mpr ⟨hblock, hopen⟩
      rw [blockDirective] at hblock
      split at hblock
      · cases hblock
      · exact hblock
  intro hdirective
  have hj : j < lines.length := by
    refine Nat.lt_of_not_le fun hlen => ?_
    rw [List.getD_eq_getElem?_getD, List.getElem?_eq_none hlen] at hdirective
    cases hdirective
  obtain ⟨front, back, hsplit, rfl⟩ := Lists.exists_split (List.getElem?_eq_getElem hj)
  generalize lines[front.length] = line at hsplit
  subst hsplit
  have hline : (front ++ line :: back).getD front.length "" = line := by simp
  have hdrop : (front ++ line :: back).drop (front.length + 1) = back := by simp
  rw [hline] at hdirective ⊢
  rw [blockDirective, hlines line (by simp), matchingEnable, hdrop, Option.map_eq_none_iff,
    if_neg Bool.false_ne_true, hdirective, eq_self, true_and, BlockScan.scan_append,
    BlockScan.scan, Nat.zero_add]
  have hinit : BlockScan.Descending 0 {} := List.pairwise_singleton _ _
  have hdescending := hinit.scan front
  rw [Nat.zero_add] at hdescending
  refine BlockScan.mem_stack_scan_iff (fun l hl => hlines l (by simp [hl]))
    (hdescending.scanLine line) ?_
  rw [BlockScan.scanLine, hdirective]
  rfl

/-! ### A finding below an ended block -/

/-- A block that is ended, and a finding below. -/
def endedBlock : List String :=
  ["// kirkforge-lint-disable no-eval", "eval(a)", "// kirkforge-lint-enable no-eval", "eval(b)"]

/-- The finding of the last line is suppressed. -/
theorem finding_suppressed_below_block :
    ¬Candidate.SuppressedByBlocks endedBlock
      { finding := { file := "a.ts", line := 4, rule := "no-eval", category := .safety
                     severity := .critical, message := "" }, fileLevel := false } := by
  intro h
  have hverdict : ¬(Covered endedBlock "no-eval" 3 ∨ LineExempt endedBlock "no-eval" 3) := by
    decide
  have hsuppressed : isSuppressed "no-eval" 3 endedBlock (computeBlockSuppressions endedBlock) =
      true := by
    decide
  exact hverdict ((h.uncovered hsuppressed).imp_right And.right)

end KirkForge.Lint
