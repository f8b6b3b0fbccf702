import KirkForge.Orchestrator.LintVerdict
import KirkForge.Orchestrator.Verdict

/-!
# What a pass verdict says about the files

Every packet that a correction loop judges comes from a delegation that was executed in the run,
judged with a reducer that holds some history. A run that is passed by its verifiers alone has
therefore left no unsuppressed finding in the files of such a delegation (`passed_files_clean`).
-/

namespace KirkForge

/-! ### Where packets come from -/

/-- The packet of a delegation of which `E` holds. -/
def Sourced (E : DelegationResult → FinalizeArgs → Prop) (p : ReducedStatePacket) : Prop :=
  ∃ (s : DelegationState) (h : List ReducerSignal) (value : DelegationResult) (args : FinalizeArgs)
    (taskId : String), E value args ∧ Represents s.reducer h ∧
      (finalizeValue s value { args with taskId }).2.packet = some p

/-- The packets that a call holds at an `await`. -/
def Pc.Sourced (E : DelegationResult → FinalizeArgs → Prop) : Pc → Prop
  | .turnReturned (.ok value) => ∃ p, value.packet = some p ∧ KirkForge.Sourced E p
  | .isolating p .. | .validating p .. | .validated p .. => KirkForge.Sourced E p
  | _ => True

/-- The packet of the last turn comes from a delegation, if the turn was judged. -/
structure LastSourced (E : DelegationResult → FinalizeArgs → Prop) (s : OrchestratorState)
    (l : CallState) : Prop where
  represents : ∃ h, Represents s.delegation.reducer h
  judged {ran p} : l.records.getLast? = some (.judged ran) → l.allPackets.getLast? = some p →
    Sourced E p

/-- So does every packet that the call still holds. -/
def Traced (E : DelegationResult → FinalizeArgs → Prop) (c : Suspended) : Prop :=
  LastSourced E c.1 c.2 ∧ c.2.pc.Sourced E

variable {E : DelegationResult → FinalizeArgs → Prop} {env : LoopEnv} {tick : Tick}
  {s s' : OrchestratorState} {l l' : CallState} {p : ReducedStatePacket} {wt : Nat}

theorem LastSourced.keep (h : LastSourced E s l) (hs : s'.delegation = s.delegation)
    (hrecords : l'.records = l.records) (hpackets : l'.allPackets = l.allPackets) :
    LastSourced E s' l' where
  represents := hs ▸ h.represents
  judged hlast hp := h.judged (hrecords ▸ hlast) (hpackets ▸ hp)

theorem LastSourced.push (h : LastSourced E s l) {r : TurnRecord}
    (hr : ∀ ran, r = .judged ran → Sourced E p) (hs : s'.delegation = s.delegation)
    (hrecords : l'.records = l.records ++ [r]) (hpackets : l'.allPackets = l.allPackets ++ [p]) :
    LastSourced E s' l' where
  represents := hs ▸ h.represents
  judged hlast hp := by
    rw [hrecords, List.getLast?_concat] at hlast
    rw [hpackets, List.getLast?_concat] at hp
    cases hp
    exact hr _ (Option.some.inj hlast)

/-! ### The segments -/

@[simp] theorem cleanupTurnWorkspace_delegation (s : OrchestratorState) :
    (cleanupTurnWorkspace s).delegation = s.delegation := by
  rw [cleanupTurnWorkspace]
  split <;> rfl

theorem crash_traced (h : LastSourced E s l) (message : String) :
    Traced E (crash env tick message s l) :=
  ⟨h.push (r := .crashed) (by rintro _ ⟨⟩) rfl rfl rfl, trivial⟩

theorem afterLoop_traced (h : LastSourced E s l) : Traced E (afterLoop env tick s l) := by
  have hleave : LastSourced E (cleanupTurnWorkspace s) (leaveTurn l) :=
    h.keep (cleanupTurnWorkspace_delegation s) rfl rfl
  rw [afterLoop]
  split
  · exact crash_traced hleave _
  · exact ⟨hleave.keep rfl rfl rfl, trivial⟩

theorem startTurn_traced (h : LastSourced E s l) : Traced E (startTurn env tick s l) := by
  rw [startTurn]
  split <;> exact ⟨h.keep rfl rfl rfl, trivial⟩

theorem loopHead_traced (h : LastSourced E s l) : Traced E (loopHead env tick s l) := by
  rw [loopHead]
  split
  · exact startTurn_traced h
  · exact afterLoop_traced h

theorem ensureBaselineSnapshot_delegation (env : LoopEnv) (tick : Tick) (s : OrchestratorState) :
    (ensureBaselineSnapshot env tick s).1.delegation = s.delegation := by
  rw [ensureBaselineSnapshot.eq_def]
  split <;> rfl

theorem beginLoop_traced (h : LastSourced E s l) : Traced E (beginLoop env tick s l) := by
  have hbaseline := ensureBaselineSnapshot_delegation env tick s
  rw [beginLoop]
  dsimp only
  split
  · next s' message hmade =>
    rw [hmade] at hbaseline
    refine crash_traced (l := { l with actualMode := _ }) ?_ message
    exact h.keep hbaseline rfl rfl
  · next s' dir hmade =>
    rw [hmade] at hbaseline
    exact loopHead_traced (l := { l with actualMode := _, baselineCwd := _ })
      (h.keep hbaseline rfl rfl)

theorem startCall_traced (hs : ∃ h, Represents s.delegation.reducer h) (taskIdNow : String)
    (task : TaskInput) (config : CorrectionLoopConfig) :
    Traced E (startCall env tick taskIdNow task config s) := by
  have hinit : LastSourced E s (CallState.initial taskIdNow task config) := ⟨hs, by rintro _ _ ⟨⟩⟩
  rw [startCall]
  dsimp only
  split
  · exact ⟨hinit.keep rfl rfl rfl, trivial⟩
  · split
    · exact ⟨hinit.keep rfl rfl rfl, trivial⟩
    · exact beginLoop_traced (hinit.keep rfl rfl rfl)

/-- A delegation that is executed gives the packet of its result. -/
theorem afterDelegate_traced (h : LastSourced E s l) {dir : DirId} {cwd : Place}
    {outcome : DelegateOutcome} {files : Tree}
    (hE : ∀ value args, outcome = .executed value args → E value args) :
    Traced E (afterDelegate s l dir cwd outcome files) := by
  obtain ⟨history, hs⟩ := h.represents
  cases outcome with
  | threw message | failed message => exact ⟨h.keep rfl rfl rfl, trivial⟩
  | executed value args =>
    refine ⟨⟨⟨_, hs.recordAll _⟩, h.judged⟩, _, rfl, ?_⟩
    exact ⟨s.delegation, history, value, args, l.taskId, hE value args rfl, hs, rfl⟩

theorem judge_traced (h : LastSourced E s l) (hp : Sourced E p)
    (ran : Option TaskValidationResult) : Traced E (judge env tick p wt ran s l) := by
  have hpush : LastSourced E s (l.push (decideTurn p wt l) p (.judged ran)) :=
    h.push (fun _ _ => hp) rfl rfl rfl
  rw [judge]
  split
  · exact loopHead_traced (hpush.keep rfl rfl rfl)
  · exact afterLoop_traced hpush

theorem afterValidation_traced (h : LastSourced E s l) (hp : Sourced E p)
    (ran : Option TaskValidationResult) : Traced E (afterValidation env tick p wt ran s l) := by
  have hleave : LastSourced E (cleanupTurnWorkspace s) (leaveTurn l) :=
    h.keep (cleanupTurnWorkspace_delegation s) rfl rfl
  rw [afterValidation]
  split
  · exact afterLoop_traced (hleave.push (r := .validatorError _) (by rintro _ ⟨⟩) rfl rfl rfl)
  · exact judge_traced hleave hp ran

theorem delegationFailed_traced (h : LastSourced E s l) (message : String) :
    Traced E (delegationFailed env tick message s l) :=
  afterLoop_traced (h.push (r := .delegationFailed) (by rintro _ ⟨⟩)
    (cleanupTurnWorkspace_delegation s) rfl rfl)

theorem isolate_traced (h : LastSourced E s l) (hp : Sourced E p) :
    Traced E (isolate env tick p wt s l) := by
  rw [isolate, createIsolatedWorkspace]
  split <;> exact ⟨h.keep rfl rfl rfl, hp⟩

theorem afterTurn_traced (h : LastSourced E s l) {value : DelegationResult}
    (hvalue : value.packet = some p) (hp : Sourced E p) :
    Traced E (afterTurn env tick value s l) := by
  have haccount : LastSourced E s (account value l) := h.keep rfl rfl rfl
  rw [afterTurn]
  simp only [hvalue, Option.getD_some]
  split
  · exact isolate_traced haccount hp
  · split
    · exact isolate_traced haccount hp
    · exact ⟨haccount.keep rfl rfl rfl, hp⟩
  · exact afterValidation_traced haccount hp none

theorem startValidator_traced (h : LastSourced E s l) (hp : Sourced E p) {isolated : DirId} :
    Traced E (startValidator env tick p wt isolated s l) := by
  rw [startValidator]
  split
  · dsimp only
    split <;> exact ⟨h.keep rfl rfl rfl, hp⟩
  · exact ⟨h.keep rfl rfl rfl, hp⟩

theorem leave_traced (h : LastSourced E s l) (o : CorrectionLoopOutcome) :
    Traced E (leave o s l) :=
  ⟨h.keep (cleanupTurnWorkspace_delegation _) rfl rfl, trivial⟩

/-! ### Runs -/

theorem resume_traced (h : Traced E (s, l)) {answer : Answer}
    (hE : ∀ value args files, answer = .delegated (.executed value args) files → E value args) :
    Traced E (resume env tick answer s l) := by
  obtain ⟨hlast, hpc⟩ := h
  unfold resume
  split
  · exact beginLoop_traced (hlast.keep rfl rfl rfl)
  · exact crash_traced hlast _
  · next outcome files _ =>
    refine afterDelegate_traced hlast fun value args houtcome => ?_
    exact hE value args files (by rw [houtcome])
  · next hl =>
    rw [hl] at hpc
    obtain ⟨p, hvalue, hp⟩ := hpc
    exact afterTurn_traced hlast hvalue hp
  · exact delegationFailed_traced hlast _
  · exact crash_traced hlast _
  · next hl =>
    rw [hl] at hpc
    exact startValidator_traced hlast hpc
  · exact crash_traced hlast _
  · next hl =>
    rw [hl] at hpc
    exact ⟨hlast.keep rfl rfl rfl, hpc⟩
  · next hl =>
    rw [hl] at hpc
    exact afterValidation_traced (l := recordValidation l _) (hlast.keep rfl rfl rfl) hpc _
  · exact ⟨hlast.keep rfl rfl rfl, trivial⟩
  · exact ⟨hlast.keep rfl rfl rfl, trivial⟩
  · exact crash_traced hlast _
  · exact leave_traced hlast _
  · exact crash_traced hlast _
  · exact leave_traced hlast _
  · exact leave_traced hlast _
  · exact ⟨hlast, hpc⟩

/-- The delegation was executed in the run. -/
def ExecutedIn (answers : List (Tick × Answer)) (value : DelegationResult) (args : FinalizeArgs) :
    Prop :=
  ∃ tick files, (tick, Answer.delegated (.executed value args) files) ∈ answers

variable (env tick) in
theorem runCall_traced (hs : ∃ h, Represents s.delegation.reducer h) (taskIdNow : String)
    (task : TaskInput) (config : CorrectionLoopConfig) (answers : List (Tick × Answer)) :
    Traced (ExecutedIn answers) (runCall env tick taskIdNow task config answers s) := by
  have hanswers : ∀ i ∈ answers, ∀ value args files,
      i.2 = .delegated (.executed value args) files → ExecutedIn answers value args := by
    rintro ⟨tick, answer⟩ hmem value args files rfl
    exact ⟨tick, files, hmem⟩
  exact (Run.allStates_of_invariant (I := Traced (ExecutedIn answers))
    (fun _ _ h hE => resume_traced h fun value args files => hE value args files)
    (startCall_traced hs taskIdNow task config) (Run.allSteps_of_mem hanswers)).last

/-- The last packet of a run that its verifiers pass is that of a delegation whose files, as the
verifiers saw them, have no finding that is not suppressed. -/
theorem passed_files_clean {taskIdNow : String} {task : TaskInput} {config : CorrectionLoopConfig}
    {answers : List (Tick × Answer)} {o : CorrectionLoopOutcome}
    (hs : ∃ h, Represents s.delegation.reducer h)
    (ho : (runCall env tick taskIdNow task config answers s).2.outcome? = some o)
    (hpass : o.finalVerdict = .pass) (hvalidator : config.hasValidator = false) :
    ∃ value args taskId, ExecutedIn answers value args ∧
      (∃ s', (finalizeValue s' value { args with taskId }).2.packet = o.allPackets.getLast?) ∧
      ∀ setup : LintSetup,
        let files := some (extractWrittenFiles value)
        let language := some args.profile.language
        setup.Publishes args.env →
          recorded (args.env.emitted taskId files language files) taskId .verifyLint ≠ [] →
            ∀ f, ¬setup.Found files language f := by
  have hinv := runCall_invariant env tick taskIdNow task config answers s
  have htraced := (runCall_traced env tick hs taskIdNow task config answers).1
  generalize runCall env tick taskIdNow task config answers s = c at ho hinv htraced
  have hconfig : c.2.hasValidator = false := (congrArg _ hinv.bookkeeping.config).trans hvalidator
  obtain ⟨-, ⟨rfl, hconc⟩ | ⟨⟨message, rfl⟩, -⟩⟩ := hinv.of_outcome ho
  · obtain ⟨-, ⟨hyes, -⟩ | ⟨-, -, -, haccept, hoverall⟩⟩ := computeFinalVerdict_eq_pass_iff.mp hpass
    · cases hyes.symm.trans hconfig
    · cases hconc with
      | escalated turns action _ _ _ =>
        have hlast := (finalAction_eq_accept_iff.mp haccept).2
        rw [turns, Option.map_some, action] at hlast
        cases hlast
      | @judged d p wt ran _ packets records =>
        obtain ⟨s₀, h, value, args, taskId, hexecuted, hrepresents, hpacket⟩ :=
          htraced.judged records packets
        have hoverall' : p.verification.overall = .pass := by
          rw [show lastPacket c.2 = some p from packets] at hoverall
          exact Option.some.inj hoverall
        refine ⟨value, args, taskId, hexecuted, ⟨s₀, hpacket.trans packets.symm⟩,
          fun setup hpublishes hdelivered => ?_⟩
        have hserves : setup.Serves (.delegate ⟨.ok value, { args with taskId }⟩) :=
          ⟨hpublishes, hdelivered⟩
        exact (hrepresents.judged_call hserves hpacket).pass hoverall'
  · cases hpass

/-- A directory with a suppressed finding in every file. -/
def suppressedEval : LintSetup where
  cwd := AbsPath.root.resolve "/work"
  host := ⟨⟨.nil, trivial⟩, fun _ => some "eval(x) // kirkforge-lint-disable-line"⟩
  rules _ := Lint.evalEngine.rules

/-- A delegation that writes a file, of whose verifiers only the lint engine is heard. -/
def evalCall : DelegateCall :=
  let emitted : EmittedFile :=
    { path := "a.js", sha256 := "", bytes := 0, beforeHash := none, existed := false }
  let call := cleanCall "task" [.artifactEmitted {
    filesWritten := 1, totalBytes := 0, files := [emitted], language := "javascript" }]
  { call with args := { call.args with env := suppressedEval.verifiers } }

def evalRun : Suspended :=
  runCall plainEnv quietTick "task-0" { description := "javascript" } { maxCorrections := 1 }
    (lastTurnAnswers evalCall) (.fresh .nil none)

theorem passed_files_clean_of_evalRun : ∃ o, evalRun.2.outcome? = some o ∧
    o.finalVerdict = .pass ∧ ∀ f, ¬suppressedEval.Found (some ["a.js"]) (some .javascript) f := by
  have hrun : evalRun.2.outcome?.map (·.finalVerdict) = some .pass := by decide +kernel
  obtain ⟨o, ho, hpass⟩ := Option.map_eq_some_iff.mp hrun
  obtain ⟨value, args, taskId, ⟨tick, files, hmem⟩, -, hclean⟩ :=
    passed_files_clean ⟨[], Represents.empty⟩ ho hpass rfl
  simp only [lastTurnAnswers, evalCall, cleanCall, List.map_cons, List.map_nil, List.mem_cons,
    Prod.mk.injEq, Answer.delegated.injEq, DelegateOutcome.executed.injEq, reduceCtorEq, and_false,
    List.not_mem_nil, or_self, or_false] at hmem
  obtain ⟨-, ⟨rfl, rfl⟩, -⟩ := hmem
  exact ⟨o, ho, hpass, hclean suppressedEval suppressedEval.publishes_verifiers
    (suppressedEval.delivered_verifiers _ _ _ _)⟩

end KirkForge
