import KirkForge.ToolLintCore.BlockSuppression

/-!
# Directives for one line

A comment with a directive for one line is added to a line of a file. What the other lines lose or
gain by it is decided by what the edited text says to them (`scopedToLine_iff`). On a line without
directives the block pattern takes the comment as well, so each rule that it lists is suppressed in
the rest of the file (`suppressed_below_iff`).
-/

namespace KirkForge.Lint

open Text (trailing)

inductive LineScope
  | disableLine | disableNextLine
  deriving DecidableEq

namespace LineScope

def keyword : LineScope → String
  | .disableLine => reDisableLine
  | .disableNextLine => reDisableNext

/-- The line that the directive of line `n` is for. -/
def target (n : Nat) : LineScope → Nat
  | .disableLine => n
  | .disableNextLine => n + 1

/-- What the keyword has after that of a block. -/
def ending : LineScope → String
  | .disableLine => "-line"
  | .disableNextLine => "-next-line"

end LineScope

/-- A comment at the end of a line: how it begins, its directive, and the list of rules, if any. -/
structure LineComment where
  opening : String
  scope : LineScope
  list : List Char
  isList : list.all isListChar = true
  separated : list.head?.all isSeparator = true

def LineComment.text (c : LineComment) : String :=
  c.opening ++ c.scope.keyword ++ String.ofList c.list

/-- The file with the comment at the end of line `n`. -/
def addComment (lines : List String) (n : Nat) (c : LineComment) : List String :=
  lines.set n (lines.getD n "" ++ c.text)

/-- Nothing changes for lines other than the one that the comment is for. -/
def ScopedToLine (lines : List String) (n : Nat) (c : LineComment) : Prop :=
  ∀ i < lines.length, i ≠ c.scope.target n → ∀ ruleId,
    isSuppressed ruleId i (addComment lines n c)
      (computeBlockSuppressions (addComment lines n c)) =
        isSuppressed ruleId i lines (computeBlockSuppressions lines)

/-- A directive of a line other than line `n` suppresses the rule on line `i`. -/
def Elsewhere (lines : List String) (n : Nat) (ruleId : String) (i : Nat) : Prop :=
  (0 < i ∧ i - 1 ≠ n ∧ reads reDisableNext (lines.getD (i - 1) "") ruleId = true) ∨
    ∃ j ≤ i, j ≠ n ∧ reads reDisableBlock (lines.getD j "") ruleId = true

/-- The text of a line suppresses the rule `d` lines below. -/
def reaches (line : String) (d : Nat) (ruleId : String) : Bool :=
  reads reDisableBlock line ruleId || (d = 1 && reads reDisableNext line ruleId)

/-- The directive for a line alone if its text has one, otherwise the others. -/
def OwnVerdict (line : String) (ruleId : String) (others : Prop) : Prop :=
  match directive reDisableLine line with
  | some rules => covers rules ruleId = true
  | none => others

/-- The old and the new text of a line say the same about it: the directive for a line alone of each
that has one, otherwise the directives elsewhere and the block directive of the text. -/
def SameOnLine (old text ruleId : String) (elsewhere : Prop) : Prop :=
  match directive reDisableLine old, directive reDisableLine text with
  | some before, some after => covers after ruleId = covers before ruleId
  | some before, none =>
    covers before ruleId = true ↔ elsewhere ∨ reads reDisableBlock text ruleId = true
  | none, some after =>
    covers after ruleId = true ↔ elsewhere ∨ reads reDisableBlock old ruleId = true
  | none, none => elsewhere ∨ reads reDisableBlock text ruleId = reads reDisableBlock old ruleId

/-- What the texts of line `n` read is the same for line `i`, or does not matter there. -/
def Unmoved (lines : List String) (n : Nat) (text : String) (i : Nat) (ruleId : String) : Prop :=
  i < n ∨
  (i = n ∧ SameOnLine (lines.getD n "") text ruleId (Elsewhere lines n ruleId n)) ∨
  (n < i ∧
    ((directive reDisableLine (lines.getD i "")).isSome = true ∨ Elsewhere lines n ruleId i ∨
      reaches text (i - n) ruleId = reaches (lines.getD n "") (i - n) ruleId))

variable {lines : List String} {n i : Nat} {text ruleId : String}

/-! ### One line of the file -/

theorem getD_set_of_ne (h : i ≠ n) : (lines.set n text).getD i "" = lines.getD i "" := by
  rw [List.getD_eq_getElem?_getD, List.getElem?_set_ne h.symm, ← List.getD_eq_getElem?_getD]

theorem getD_set_self (h : n < lines.length) : (lines.set n text).getD n "" = text := by
  rw [List.getD_eq_getElem?_getD, List.getElem?_set_self h, Option.getD_some]

/-- The verdict on a line at or below line `n`, with what line `n` says to it put apart. -/
theorem isSuppressed_iff_ownVerdict (hi : n ≤ i) :
    isSuppressed ruleId i lines (computeBlockSuppressions lines) = true ↔
      OwnVerdict (lines.getD i "") ruleId
        (Elsewhere lines n ruleId i ∨ reaches (lines.getD n "") (i - n) ruleId = true) := by
  rw [isSuppressed_computeBlockSuppressions, OwnVerdict]
  cases directive reDisableLine (lines.getD i "") with
  | some rules => rfl
  | none =>
    simp only [Elsewhere, reaches, Bool.or_eq_true, Bool.and_eq_true, decide_eq_true_eq]
    constructor
    · rintro (⟨hpos, hnext⟩ | ⟨j, hj, hblock⟩)
      · by_cases hn : i - 1 = n
        · rw [hn] at hnext
          exact .inr (.inr ⟨by omega, hnext⟩)
        · exact .inl (.inl ⟨hpos, hn, hnext⟩)
      · by_cases hn : j = n
        · rw [hn] at hblock
          exact .inr (.inl hblock)
        · exact .inl (.inr ⟨j, hj, hn, hblock⟩)
    · rintro ((⟨hpos, -, hnext⟩ | ⟨j, hj, -, hblock⟩) | hblock | ⟨hd, hnext⟩)
      · exact .inl ⟨hpos, hnext⟩
      · exact .inr ⟨j, hj, hblock⟩
      · exact .inr ⟨n, hi, hblock⟩
      · refine .inl ⟨by omega, ?_⟩
        rwa [show i - 1 = n by omega]

theorem elsewhere_set : Elsewhere (lines.set n text) n ruleId i ↔ Elsewhere lines n ruleId i := by
  rw [Elsewhere, Elsewhere]
  refine or_congr (and_congr_right fun _ => and_congr_right fun hn => ?_)
    (exists_congr fun j => and_congr_right fun _ => and_congr_right fun hn => ?_)
  · rw [getD_set_of_ne hn]
  · rw [getD_set_of_ne hn]

/-- Lines above the edited one. -/
theorem isSuppressed_set_above (hi : i < n) :
    isSuppressed ruleId i (lines.set n text) (computeBlockSuppressions (lines.set n text)) =
      isSuppressed ruleId i lines (computeBlockSuppressions lines) := by
  rw [Bool.eq_iff_iff, isSuppressed_computeBlockSuppressions,
    isSuppressed_computeBlockSuppressions, getD_set_of_ne (Nat.ne_of_lt hi)]
  cases directive reDisableLine (lines.getD i "") with
  | some rules => rfl
  | none =>
    refine or_congr (and_congr_right fun _ => ?_)
      (exists_congr fun j => and_congr_right fun hj => ?_)
    · rw [getD_set_of_ne (by omega)]
    · rw [getD_set_of_ne (Nat.ne_of_lt (Nat.lt_of_le_of_lt hj hi))]

theorem reaches_zero (line ruleId : String) :
    reaches line 0 ruleId = reads reDisableBlock line ruleId := by
  simp [reaches]

theorem or_congr_left_iff {p a b : Prop} : ((p ∨ a) ↔ (p ∨ b)) ↔ p ∨ (a ↔ b) := by
  by_cases hp : p <;> simp [hp]

theorem sameOnLine_iff {old : String} {others : Prop} :
    (OwnVerdict text ruleId (others ∨ reads reDisableBlock text ruleId = true) ↔
        OwnVerdict old ruleId (others ∨ reads reDisableBlock old ruleId = true)) ↔
      SameOnLine old text ruleId others := by
  rw [OwnVerdict, OwnVerdict, SameOnLine]
  cases directive reDisableLine old with
  | some before =>
    cases directive reDisableLine text with
    | some after => exact Bool.eq_iff_iff.symm
    | none => exact Iff.comm
  | none =>
    cases directive reDisableLine text with
    | some after => rfl
    | none => exact or_congr_left_iff.trans (or_congr_right Bool.eq_iff_iff.symm)

/-- Exactly then nothing changes on line `i`. -/
theorem unmoved_iff (hn : n < lines.length) :
    isSuppressed ruleId i (lines.set n text) (computeBlockSuppressions (lines.set n text)) =
        isSuppressed ruleId i lines (computeBlockSuppressions lines) ↔
      Unmoved lines n text i ruleId := by
  rcases Nat.lt_trichotomy i n with hi | rfl | hi
  · exact iff_of_true (isSuppressed_set_above hi) (.inl hi)
  · rw [Bool.eq_iff_iff, isSuppressed_iff_ownVerdict (Nat.le_refl i),
      isSuppressed_iff_ownVerdict (Nat.le_refl i), getD_set_self hn, Nat.sub_self, reaches_zero,
      reaches_zero, elsewhere_set, sameOnLine_iff, Unmoved]
    simp only [Nat.lt_irrefl, false_or, true_and, false_and, or_false]
  · have hreaches : reaches text (i - n) ruleId = reaches (lines.getD n "") (i - n) ruleId ↔
        (reaches text (i - n) ruleId = true ↔ reaches (lines.getD n "") (i - n) ruleId = true) :=
      Bool.eq_iff_iff
    rw [Bool.eq_iff_iff, isSuppressed_iff_ownVerdict (Nat.le_of_lt hi),
      isSuppressed_iff_ownVerdict (Nat.le_of_lt hi), getD_set_self hn,
      getD_set_of_ne (Nat.ne_of_gt hi), Unmoved, hreaches, OwnVerdict, OwnVerdict]
    simp only [elsewhere_set, Nat.not_lt_of_lt hi, Nat.ne_of_gt hi, hi, false_or, true_and,
      false_and]
    cases directive reDisableLine (lines.getD i "") with
    | some rules => simp
    | none => simp [or_congr_left_iff]

/-- A directive for one line leaves the other lines alone if and only if the text of the edited line
says the same to each of them as before, where nothing else decides. -/
theorem scopedToLine_iff (lines : List String) (n : Nat) (c : LineComment) :
    ScopedToLine lines n c ↔ ∀ i < lines.length, i ≠ c.scope.target n → ∀ ruleId,
      Unmoved lines n (lines.getD n "" ++ c.text) i ruleId := by
  rcases Nat.lt_or_ge n lines.length with hn | hn
  · exact forall₂_congr fun i _ => forall₂_congr fun _ ruleId => unmoved_iff hn
  · refine iff_of_true (fun i _ _ ruleId => ?_) fun i hi _ ruleId => .inl (Nat.lt_of_lt_of_le hi hn)
    rw [addComment, List.set_eq_of_length_le hn]

/-! ### The comment on a line without directives -/

theorem parseRuleList_append {name list : List Char} (hname : name ≠ [])
    (hseparator : ∀ ch ∈ name, isSeparator ch = false)
    (hlist : list.head?.all isSeparator = true) :
    parseRuleList (some (name ++ list)) =
      String.ofList name :: parseRuleList (some list) := by
  rw [parseRuleList, parseRuleList]
  cases list with
  | nil => simp [List.splitOnP_eq_singleton hseparator, hname]
  | cons ch list =>
    have hch : isSeparator ch = true := hlist
    rw [List.splitOnP_append_cons_of_forall_mem hseparator ch hch,
      List.splitOnP_cons_eq_if_modifyHead, if_pos hch,
      List.filter_cons_of_pos (by simpa using hname), List.filter_cons_of_neg (by simp)]
    rfl

theorem unbordered_reDisableBlock : Text.Unbordered reDisableBlock.toList := by
  decide

theorem LineScope.keyword_eq (scope : LineScope) :
    scope.keyword = reDisableBlock ++ scope.ending := by
  cases scope <;> decide

/-- The word behind the keyword of a block could stand in a list of rules. -/
theorem LineScope.ending_spec (scope : LineScope) :
    scope.ending.toList.head? = some '-' ∧ scope.ending.toList.all isListChar = true ∧
      scope.ending.toList.all (!isSeparator ·) = true := by
  cases scope <;> decide

/-- The block pattern takes the comment, and its first rule is the rest of the keyword. -/
theorem directive_addComment {line : String} {c : LineComment}
    (hline : trailing isListChar reDisableBlock.toList (line ++ c.opening).toList = none) :
    directive reDisableBlock (line ++ c.text) =
      some (c.scope.ending :: parseRuleList (some c.list)) := by
  obtain ⟨hhead, hchars, hseparator⟩ := c.scope.ending_spec
  have htext : (line ++ c.text).toList = (line ++ c.opening).toList ++
      (reDisableBlock.toList ++ (c.scope.ending.toList ++ c.list)) := by
    rw [LineComment.text, LineScope.keyword_eq]
    simp
  have hall : (c.scope.ending.toList ++ c.list).all isListChar = true := by
    rw [List.all_append, hchars, c.isList]
    rfl
  have hkeyword : reDisableBlock.toList ≠ [] := by decide
  obtain ⟨rest, hrest⟩ : ∃ rest, c.scope.ending.toList = '-' :: rest :=
    List.head?_eq_some_iff.mp hhead
  have htrim : Text.trimStart (c.scope.ending.toList ++ c.list) =
      c.scope.ending.toList ++ c.list := by
    rw [hrest, List.cons_append, Text.trimStart, List.dropWhile_cons_of_neg (by decide)]
  have hne : c.scope.ending.toList ≠ [] := by
    rw [hrest]
    exact List.cons_ne_nil _ _
  rw [directive, exec, htext,
    Text.trailing_append_keyword unbordered_reDisableBlock hkeyword hline hall, Option.map_some,
    Option.map_some, htrim, if_neg (List.append_ne_nil_of_left_ne_nil hne _),
    parseRuleList_append hne ?_ c.separated, String.ofList_toList]
  intro ch hch
  simpa using List.all_eq_true.mp hseparator ch hch

theorem reads_reDisableBlock_addComment {line : String} {c : LineComment}
    (hline : trailing isListChar reDisableBlock.toList (line ++ c.opening).toList = none) :
    reads reDisableBlock (line ++ c.text) ruleId = true ↔
      ruleId ∈ c.scope.ending :: parseRuleList (some c.list) := by
  rw [reads, directive_addComment hline, Option.any_some, covers, List.isEmpty_cons,
    Bool.false_or, List.contains_iff_mem]

/-- From two lines below the comment on, each rule that it lists is suppressed, and the rest of the
keyword as if it were one. -/
theorem suppressed_below_iff {c : LineComment} (hn : n < lines.length) (hi : n + 1 < i)
    (hline : directive reDisableBlock (lines.getD n "") = none)
    (hopening : trailing isListChar reDisableBlock.toList
      (lines.getD n "" ++ c.opening).toList = none) :
    isSuppressed ruleId i (addComment lines n c)
        (computeBlockSuppressions (addComment lines n c)) = true ↔
      isSuppressed ruleId i lines (computeBlockSuppressions lines) = true ∨
        directive reDisableLine (lines.getD i "") = none ∧
          ruleId ∈ c.scope.ending :: parseRuleList (some c.list) := by
  have hle : n ≤ i := by omega
  have hd : ¬i - n = 1 := by omega
  rw [addComment, isSuppressed_iff_ownVerdict hle, isSuppressed_iff_ownVerdict hle,
    getD_set_self hn, getD_set_of_ne (by omega), elsewhere_set, OwnVerdict, OwnVerdict, reaches,
    reaches, ← reads_reDisableBlock_addComment hopening]
  have hbefore : reads reDisableBlock (lines.getD n "") ruleId = false := by
    rw [reads, hline]
    rfl
  cases directive reDisableLine (lines.getD i "") with
  | some rules => simp
  | none =>
    simp only [hd, hbefore, decide_false, Bool.false_and, Bool.or_false, Bool.false_eq_true,
      or_false, true_and]

/-- A line with a comment that exempts it from one rule, and the next line. -/
theorem comment_suppresses_next_line :
    ¬ScopedToLine ["eval(a);", "eval(b);"] 0
      { opening := " // ", scope := .disableLine, list := " no-eval".toList
        isList := by decide, separated := by decide } := by
  intro h
  have hnext := h 1 (by decide) (by decide) "no-eval"
  revert hnext
  decide

end KirkForge.Lint
