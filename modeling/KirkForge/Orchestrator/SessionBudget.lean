import KirkForge.Orchestrator.Verdict

/-!
# The budget of a session

`decideCorrection` looks at the budget before every correction, but takes a budget of zero for none.
A session with any other budget stays within it, and a session with a budget of zero does exactly if
no correction is allowed (`sessionBudget_iff`).
-/

namespace KirkForge

variable {env : LoopEnv} {tick : Tick} {a : CallArgs} {s : OrchestratorState} {l : CallState}
  {c : Suspended} {maxCost : ℚ}

/-- A delegation that is running and is not the first of its call was started below the budget:
`sessionCost` stands still until its result is there. -/
def WithinBudget (maxCost : ℚ) (c : Suspended) : Prop :=
  ∀ dir cwd, c.2.pc = .delegating dir cwd → 2 ≤ c.2.starts.length → c.2.sessionCost < maxCost

/-- One input of a call: the answer that it waits for. -/
def loopStep (env : LoopEnv) (c : Suspended) (i : Tick × Answer) : Suspended :=
  resume env i.1 i.2 c.1 c.2

/-- No delegation of a call runs, and the call is not at its start. -/
def Resting (c : Suspended) : Prop := c.2.pc ≠ .loading ∧ ∀ dir cwd, c.2.pc ≠ .delegating dir cwd

/-- A call that has not begun has delegated nothing, and a later delegation is below the budget. -/
structure Budgeted (maxCost : ℚ) (c : Suspended) : Prop where
  fresh : c.2.pc = .loading → c.2.starts = []
  within : WithinBudget maxCost c

theorem Resting.budgeted (h : Resting c) : Budgeted maxCost c :=
  ⟨fun hpc => absurd hpc h.1, fun dir cwd hpc => absurd hpc (h.2 dir cwd)⟩

/-! ### The segments -/

theorem crash_resting (message : String) : Resting (crash env tick message s l) :=
  ⟨by rintro ⟨⟩, by rintro _ _ ⟨⟩⟩

theorem afterLoop_resting : Resting (afterLoop env tick s l) := by
  rw [afterLoop]
  split
  · exact crash_resting _
  · exact ⟨by rintro ⟨⟩, by rintro _ _ ⟨⟩⟩

theorem leave_resting (o : CorrectionLoopOutcome) : Resting (leave o s l) :=
  ⟨by rintro ⟨⟩, by rintro _ _ ⟨⟩⟩

/-- A delegation is started for the first time, or below the budget. -/
theorem startTurn_budgeted (h : l.starts = [] ∨ l.sessionCost < maxCost) :
    Budgeted maxCost (startTurn env tick s l) := by
  rw [startTurn]
  split
  · exact Resting.budgeted ⟨by rintro ⟨⟩, by rintro _ _ ⟨⟩⟩
  · exact Resting.budgeted ⟨by rintro ⟨⟩, by rintro _ _ ⟨⟩⟩
  · refine ⟨by rintro ⟨⟩, fun dir cwd _ hstarts => ?_⟩
    rcases h with hnone | hcost
    · simp [hnone] at hstarts
    · exact hcost

theorem loopHead_budgeted (h : l.starts = [] ∨ l.sessionCost < maxCost) :
    Budgeted maxCost (loopHead env tick s l) := by
  rw [loopHead]
  split
  · exact startTurn_budgeted h
  · exact afterLoop_resting.budgeted

theorem beginLoop_budgeted (h : l.starts = []) : Budgeted maxCost (beginLoop env tick s l) := by
  simp only [beginLoop]
  split
  · exact (crash_resting _).budgeted
  · exact loopHead_budgeted (.inl h)

/-- A correction is asked for only below the budget. -/
theorem decideCorrection.below_budget {packet : ReducedStatePacket} {count : Nat}
    {maxCorrections : Int} {wt st : Nat} {cost : ℚ} {budget : Option ℚ}
    {lang : Option TaskLanguage} {taskPass : Option Bool}
    (h : (decideCorrection packet count maxCorrections wt st cost budget lang taskPass).action =
      .correct) : exceedsBudget cost budget = false := by
  cases taskPass with
  | none =>
    simp only [decideCorrection, reduceCtorEq, if_false] at h
    split at h
    · cases h
    split at h
    · cases h
    split at h
    · cases h
    split at h
    · cases h
    · next hcost => exact Bool.eq_false_iff.mpr hcost
  | some b =>
    cases b with
    | true =>
      rw [accept_of_taskPass] at h
      cases h
    | false =>
      simp only [decideCorrection, Option.some.injEq, Bool.false_eq_true, if_false, if_true] at h
      split at h
      · cases h
      split at h
      · cases h
      · next hcost => exact Bool.eq_false_iff.mpr hcost

theorem exceedsBudget_eq_false_iff {cost : ℚ} :
    exceedsBudget cost (some maxCost) = false ↔ maxCost = 0 ∨ cost < maxCost := by
  simp only [exceedsBudget, Option.any_some, Bool.and_eq_false_iff, decide_eq_false_iff_not,
    ge_iff_le, not_le, ne_eq, not_not]

theorem judge_budgeted (hbudget : l.config.maxCost = some maxCost) (hne : maxCost ≠ 0)
    (packet : ReducedStatePacket) (wt : Nat) (ran : Option TaskValidationResult) :
    Budgeted maxCost (judge env tick packet wt ran s l) := by
  rw [judge]
  split
  · next hact =>
    have hcost := decideCorrection.below_budget hact
    change exceedsBudget l.sessionCost l.config.maxCost = false at hcost
    rw [hbudget, exceedsBudget_eq_false_iff] at hcost
    exact loopHead_budgeted (.inr (hcost.resolve_left hne))
  · exact afterLoop_resting.budgeted

theorem afterValidation_budgeted (hbudget : l.config.maxCost = some maxCost) (hne : maxCost ≠ 0)
    (packet : ReducedStatePacket) (wt : Nat) (ran : Option TaskValidationResult) :
    Budgeted maxCost (afterValidation env tick packet wt ran s l) := by
  rw [afterValidation]
  split
  · exact afterLoop_resting.budgeted
  · exact judge_budgeted (l := leaveTurn l) hbudget hne packet wt ran

theorem isolate_resting (packet : ReducedStatePacket) (wt : Nat) :
    Resting (isolate env tick packet wt s l) := ⟨by rintro ⟨⟩, by rintro _ _ ⟨⟩⟩

theorem afterTurn_budgeted (hbudget : l.config.maxCost = some maxCost) (hne : maxCost ≠ 0)
    (value : DelegationResult) : Budgeted maxCost (afterTurn env tick value s l) := by
  rw [afterTurn]
  split
  · exact (isolate_resting _ _).budgeted
  · split
    · exact (isolate_resting _ _).budgeted
    · exact Resting.budgeted ⟨by rintro ⟨⟩, by rintro _ _ ⟨⟩⟩
  · exact afterValidation_budgeted (l := account value l) hbudget hne _ _ _

theorem startValidator_resting (packet : ReducedStatePacket) (wt : Nat) (isolated : DirId) :
    Resting (startValidator env tick packet wt isolated s l) := by
  rw [startValidator]
  split
  · dsimp only
    split
    · exact ⟨by rintro ⟨⟩, by rintro _ _ ⟨⟩⟩
    · exact ⟨by rintro ⟨⟩, by rintro _ _ ⟨⟩⟩
  · exact ⟨by rintro ⟨⟩, by rintro _ _ ⟨⟩⟩

/-! ### Runs -/

theorem resume_budgeted (hne : maxCost ≠ 0) (hbudget : l.config.maxCost = some maxCost)
    (answer : Answer) (h : Budgeted maxCost (s, l)) :
    Budgeted maxCost (resume env tick answer s l) := by
  unfold resume
  split
  · next hl => exact beginLoop_budgeted (h.fresh hl)
  · exact (crash_resting _).budgeted
  · exact Resting.budgeted ⟨by rintro ⟨⟩, by rintro _ _ ⟨⟩⟩
  · exact afterTurn_budgeted hbudget hne _
  · exact afterLoop_resting.budgeted
  · exact (crash_resting _).budgeted
  · exact (startValidator_resting _ _ _).budgeted
  · exact (crash_resting _).budgeted
  · exact Resting.budgeted ⟨by rintro ⟨⟩, by rintro _ _ ⟨⟩⟩
  · exact afterValidation_budgeted (l := recordValidation l _) hbudget hne _ _ _
  · exact Resting.budgeted ⟨by rintro ⟨⟩, by rintro _ _ ⟨⟩⟩
  · exact Resting.budgeted ⟨by rintro ⟨⟩, by rintro _ _ ⟨⟩⟩
  · exact (crash_resting _).budgeted
  · exact (leave_resting _).budgeted
  · exact (crash_resting _).budgeted
  · exact (leave_resting _).budgeted
  · exact (leave_resting _).budgeted
  · exact h

theorem startCall_budgeted (taskIdNow : String) (task : TaskInput)
    (config : CorrectionLoopConfig) :
    Budgeted maxCost (startCall env tick taskIdNow task config s) := by
  simp only [startCall]
  split
  · exact Resting.budgeted ⟨by rintro ⟨⟩, by rintro _ _ ⟨⟩⟩
  split
  · exact ⟨fun _ => rfl, by rintro _ _ ⟨⟩⟩
  · exact beginLoop_budgeted rfl

/-- A session with a budget other than zero stays within it. -/
theorem allStates_withinBudget {config : CorrectionLoopConfig} (hne : maxCost ≠ 0)
    (hbudget : config.maxCost = some maxCost) (taskIdNow : String) (task : TaskInput)
    (answers : List (Tick × Answer)) (s : OrchestratorState) :
    Run.AllStates (loopStep env) (WithinBudget maxCost)
      (startCall env tick taskIdNow task config s) answers := by
  have hstep (c : Suspended) (i : Tick × Answer)
      (h : Invariant ⟨task, config⟩ c ∧ Budgeted maxCost c) :
      Invariant ⟨task, config⟩ (loopStep env c i) ∧ Budgeted maxCost (loopStep env c i) := by
    have hconfig : c.2.config.maxCost = some maxCost := by rw [h.1.bookkeeping.config, hbudget]
    exact ⟨resume_invariant i.2 h.1, resume_budgeted hne hconfig i.2 h.2⟩
  have hstart : Invariant ⟨task, config⟩ (startCall env tick taskIdNow task config s) :=
    startCall_invariant taskIdNow task config
  exact (Run.allStates_of_forall hstep ⟨hstart, startCall_budgeted taskIdNow task config⟩).mono
    fun _ h => h.2.within

/-- Where no correction is allowed, nothing is delegated a second time. -/
theorem withinBudget_of_no_corrections (h : Bookkeeping a c.2) (hmax : a.config.maxCorrections ≤ 0) :
    WithinBudget maxCost c := by
  intro dir cwd _ hstarts
  have := h.delegations
  omega

/-! ### A budget of zero -/

/-- A failed turn is corrected as long as corrections are left and the budget is not exceeded. -/
theorem judge_of_failed {packet : ReducedStatePacket} {wt : Nat}
    {ran : Option TaskValidationResult} (hc : c = judge env tick packet wt ran s l)
    (htask : l.task.taskPass = some false) (hcount : (l.turn : Int) < l.config.maxCorrections)
    (hbudget : exceedsBudget l.sessionCost l.config.maxCost = false) :
    ∃ decision, c =
      startTurn env tick s (nextTurn (l.push decision packet (.judged ran)) decision) := by
  have hact : (decideTurn packet wt l).action = .correct := by
    simp only [decideTurn, decideCorrection, htask, hbudget, Option.some.injEq,
      if_false, if_true, Bool.false_eq_true, ge_iff_le, if_neg (not_le.mpr hcount)]
  refine ⟨decideTurn packet wt l, ?_⟩
  rw [hc, judge, if_pos hact, loopHead, if_pos]
  change ((l.turn + 1 : Nat) : Int) ≤ l.config.maxCorrections
  omega

/-- A delegation that an expensive provider answers. -/
def paidDelegation : DelegateOutcome :=
  match (cleanCall "task-0" []).result with
  | .ok value => .executed value { (cleanCall "task-0" []).args with providerKey := "openai" }
  | .error message => .failed message

/-- The first delegation returns and its turn is judged. -/
def firstTurn : List (Tick × Answer) :=
  [(quietTick, .delegated paidDelegation .nil), (quietTick, .settled)]

/-- A task that its caller has declared failed. -/
def failedTask : TaskInput := { description := "javascript", taskPass := some false }

def pennilessConfig (maxCorrections : Int) : CorrectionLoopConfig :=
  { maxCorrections, maxCost := some 0 }

/-- With nothing to spend, a turn that has cost something is followed by another one. -/
theorem delegates_again {maxCorrections : Int} (h : 0 < maxCorrections) :
    let c := Run.run (loopStep plainEnv) (startCall plainEnv quietTick "task-0" failedTask
      (pennilessConfig maxCorrections) (.fresh .nil none)) firstTurn
    (∃ dir cwd, c.2.pc = .delegating dir cwd) ∧ c.2.starts.length = 2 ∧ 0 < c.2.sessionCost := by
  intro c
  have hfirst : startCall plainEnv quietTick "task-0" failedTask (pennilessConfig maxCorrections)
      (.fresh .nil none) = startTurn plainEnv quietTick _ _ := if_pos h.le
  have hjudge : c = judge plainEnv quietTick _ _ none _ _ :=
    congrArg (fun start => Run.run (loopStep plainEnv) start firstTurn) hfirst
  obtain ⟨decision, hcorrect⟩ := judge_of_failed hjudge rfl h rfl
  rw [hcorrect]
  have hcost : 0 < 0 + estimateSimpleCost (resolveCostProviderKey "openai") 1 1 := by
    decide +kernel
  exact ⟨⟨_, _, rfl⟩, rfl, hcost⟩

/-- A budget stops a session unless it is zero and corrections are allowed. -/
theorem sessionBudget_iff (maxCost : ℚ) (maxCorrections : Int) :
    (∀ (env : LoopEnv) (tick : Tick) (taskIdNow : String) (task : TaskInput)
        (config : CorrectionLoopConfig) (answers : List (Tick × Answer)) (s : OrchestratorState),
      config.maxCost = some maxCost → config.maxCorrections = maxCorrections →
        Run.AllStates (loopStep env) (WithinBudget maxCost)
          (startCall env tick taskIdNow task config s) answers) ↔
      maxCost ≠ 0 ∨ maxCorrections ≤ 0 := by
  constructor
  · intro h
    by_contra hno
    obtain ⟨hzero, hpos⟩ := not_or.mp hno
    obtain rfl := not_not.mp hzero
    obtain ⟨⟨dir, cwd, hpc⟩, hstarts, hcost⟩ := delegates_again (not_le.mp hpos)
    have hwithin := (h plainEnv quietTick "task-0" failedTask (pennilessConfig maxCorrections)
      firstTurn (.fresh .nil none) rfl rfl).last
    exact absurd (hwithin dir cwd hpc hstarts.ge) (not_lt.mpr hcost.le)
  · rintro h env tick taskIdNow task config answers s hbudget rfl
    rcases h with hne | hmax
    · exact allStates_withinBudget hne hbudget taskIdNow task answers s
    · have hstep (c : Suspended) (i : Tick × Answer) (h : Invariant ⟨task, config⟩ c) :
          Invariant ⟨task, config⟩ (loopStep env c i) := resume_invariant i.2 h
      have hstart : Invariant ⟨task, config⟩ (startCall env tick taskIdNow task config s) :=
        startCall_invariant taskIdNow task config
      exact (Run.allStates_of_forall hstep hstart).mono fun _ h =>
        withinBudget_of_no_corrections h.bookkeeping hmax

/-- Two corrections, as the command line allows by default, and a budget of zero: the second
delegation starts after the first one has cost something. -/
theorem zero_budget_spent :
    ¬∀ (env : LoopEnv) (tick : Tick) (taskIdNow : String) (task : TaskInput)
        (config : CorrectionLoopConfig) (answers : List (Tick × Answer)) (s : OrchestratorState)
        (maxCost : ℚ), 0 ≤ maxCost → config.maxCost = some maxCost →
      Run.AllStates (loopStep env) (WithinBudget maxCost)
        (startCall env tick taskIdNow task config s) answers := by
  intro h
  obtain ⟨⟨dir, cwd, hpc⟩, hstarts, hcost⟩ := delegates_again (show (0 : Int) < 2 by decide)
  have hwithin := (h plainEnv quietTick "task-0" failedTask (pennilessConfig 2) firstTurn
    (.fresh .nil none) 0 le_rfl rfl).last
  exact absurd (hwithin dir cwd hpc hstarts.ge) (not_lt.mpr hcost.le)

end KirkForge
