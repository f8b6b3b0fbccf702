import KirkForge.Orchestrator.CorrectionLoopLemmas
import KirkForge.Orchestrator.OwnSignals

/-!
# What the outcome of a correction loop says

Three readings of the invariant at the end of a call: when a turn that passed its own verification
is accepted, what a pass verdict rests on, and how a run can be accepted and failed at once.
-/

namespace KirkForge

variable {env : LoopEnv} {tick : Tick} {a : CallArgs} {c : Suspended} {o : CorrectionLoopOutcome}

theorem CallState.outcome?_eq_some {l : CallState} : l.outcome? = some o ↔ l.pc = .finished o := by
  rw [outcome?]
  split
  · next h => rw [h]; simp
  · next h => exact iff_of_false nofun fun ho => h o ho

theorem Invariant.of_outcome (h : Invariant a c) (ho : c.2.outcome? = some o) :
    c.1.busy = false ∧
      (o = loopOutcome c.2 ∧ Conclusion c.2 ∨
        (∃ message, o = crashOutcome c.2 message) ∧ c.2.records.getLast? = some .crashed) := by
  have hpc := h.pc
  rw [PcInvariant, CallState.outcome?_eq_some.mp ho] at hpc
  exact hpc

theorem Invariant.outcome_turns (h : Invariant a c) (ho : c.2.outcome? = some o) :
    o.turns = c.2.turns ∧ o.allPackets = c.2.allPackets := by
  obtain ⟨-, ⟨rfl, -⟩ | ⟨⟨_, rfl⟩, -⟩⟩ := h.of_outcome ho <;> exact ⟨rfl, rfl⟩

/-- A passing validation is the one of the last turn. -/
theorem Conclusion.validated_of_pass {l : CallState} (h : Conclusion l)
    (hv : l.hasValidator = true) (hpass : l.taskValidation.status = .pass) :
    l.records.getLast? = some (.judged (some l.taskValidation)) := by
  cases h with
  | judged _ _ records _ _ validated _ =>
    rcases validated with ⟨hno, -⟩ | ⟨-, rfl, -⟩
    · rw [hv] at hno; cases hno
    · exact records
  | escalated _ _ _ _ notPassed => exact (notPassed hpass).elim

/-- The packets of a call say by their flags whether the protocol was broken. -/
theorem protocolBroken_eq_true_iff {p : ReducedStatePacket} (h : EnforcementFails p) :
    protocolBroken (some p) = true ↔ ∃ e, p.artifactEnforcement = some e ∧
      (e.unterminated = some true ∨ e.truncated = some true) := by
  rw [protocolBroken, Option.bind_some]
  cases he : p.artifactEnforcement with
  | none => simp
  | some e => simp [h e he]

theorem Bookkeeping.protocolBroken_iff {l : CallState} (h : Bookkeeping a l) :
    protocolBroken (lastPacket l) = true ↔
      ∃ packet e, l.allPackets.getLast? = some packet ∧ packet.artifactEnforcement = some e ∧
        (e.unterminated = some true ∨ e.truncated = some true) := by
  rw [lastPacket]
  cases hlast : l.allPackets.getLast? with
  | none => simp [protocolBroken]
  | some packet =>
    rw [protocolBroken_eq_true_iff (h.enforced packet (List.mem_of_getLast? hlast))]
    simp

theorem finalAction_eq_accept_iff {l : CallState} :
    finalAction l = .accept ↔
      (l.hasValidator = true → l.taskValidation.status = .pass) ∧
        l.turns.getLast?.map (·.action) = some .accept := by
  rw [finalAction]
  split
  · next h => exact iff_of_false nofun fun hall => h.2 (hall.1 h.1)
  · next h =>
    have hpass : l.hasValidator = true → l.taskValidation.status = .pass := fun hv =>
      not_not.mp fun hne => h ⟨hv, hne⟩
    split
    · next hact => exact iff_of_true rfl ⟨hpass, hact⟩
    · next hact => exact iff_of_false nofun fun hall => hact hall.2

/-- Acceptance needs the validator's word, the caller's, or a passing packet. -/
theorem Conclusion.of_accept {l : CallState} (h : Conclusion l) (haccept : finalAction l = .accept) :
    l.task.taskPass = some true ∨ l.allPackets.getLast?.map (·.verification.overall) = some .pass := by
  have hact := (finalAction_eq_accept_iff.mp haccept).2
  cases h with
  | judged turns packets _ decision _ _ _ =>
    rw [turns, Option.map_some, decision, Option.some.injEq] at hact
    rw [packets]
    exact (decideCorrection.of_accept hact).imp id fun hpass => congrArg some hpass.2
  | escalated turns action _ _ _ =>
    rw [turns, Option.map_some, action] at hact
    cases hact

/-! ### Verified turns -/

/-- An orchestrator environment in which every task is routed to hard-prompt mode. -/
def plainEnv : LoopEnv where
  classifyTask _ _ := .hardPrompt
  policyHash := none
  allowUnsafeValidatorShell := true
  cwdPath := "/work"

def quietTick : Tick := { now := "" }

/-- The answers of a turn without a validator that ends the loop, and of what follows it. -/
def lastTurnAnswers (call : DelegateCall) : List (Tick × Answer) :=
  [(quietTick, .delegated (match call.result with
      | .ok value => .executed value call.args
      | .error message => .failed message) .nil),
    (quietTick, .settled), (quietTick, .settled), (quietTick, .settled), (quietTick, .settled)]

/-- One turn on a task whose description names JavaScript, the profile of which asks for no
validator. -/
def singleTurn (taskPass : Option Bool) (config : CorrectionLoopConfig)
    (signals : List DelegationSignalValue) : Suspended :=
  runCall plainEnv quietTick "task-0" { description := "javascript", taskPass } config
    (lastTurnAnswers (cleanCall "task-0" signals)) (.fresh .nil none)

theorem verified_turn_accepted_iff (packet : ReducedStatePacket) (hp : Verified packet) :
    (∀ (correctionCount : Nat) (maxCorrections : Int) (workerTokens sessionTokens : Nat)
        (sessionCost : ℚ) (maxCost : Option ℚ) (language : Option TaskLanguage),
      (decideCorrection packet correctionCount maxCorrections workerTokens sessionTokens
          sessionCost maxCost language none).action = .accept ↔
        (correctionCount : Int) < maxCorrections ∧ exceedsBudget sessionCost maxCost = false) ∧
      ∀ (env : LoopEnv) (tick : Tick) (taskIdNow : String) (task : TaskInput)
        (config : CorrectionLoopConfig) (answers : List (Tick × Answer)) (s : OrchestratorState)
        (o : CorrectionLoopOutcome),
      let l := (runCall env tick taskIdNow task config answers s).2
      l.outcome? = some o → config.hasValidator = false → task.taskPass = none →
        l.records.getLast? = some (.judged none) → o.allPackets.getLast? = some packet →
        (o.finalAction = .accept ↔
          (l.turn : Int) < config.maxCorrections ∧
            exceedsBudget l.sessionCost config.maxCost = false) := by
  refine ⟨fun count maxC wt st cost maxCost lang =>
    decideCorrection.accept_iff_of_verified hp, ?_⟩
  intro env tick taskIdNow task config answers s o l ho hv htp hrec hpacket
  have hinv := runCall_invariant env tick taskIdNow task config answers s
  have hbook := hinv.bookkeeping
  rw [(hinv.outcome_turns ho).2] at hpacket
  obtain ⟨-, ⟨rfl, hconc⟩ | ⟨-, hcrash⟩⟩ := hinv.of_outcome ho
  · have hv' : l.hasValidator = false := by rw [← hv]; exact congrArg _ hbook.config
    cases hconc with
    | @judged d p wt ran turns packets records hd _ _ _ =>
      obtain rfl : packet = p := Option.some.inj (hpacket.symm.trans packets)
      have haction : finalAction l = .accept ↔ d.action = .accept := by
        rw [finalAction_eq_accept_iff, hv', turns]
        simp
      have htp' : l.task.taskPass = none := by rw [(hbook.unvalidated hv).2, htp]
      have hiff : d.action = .accept ↔ (l.turn : Int) < l.config.maxCorrections ∧
          exceedsBudget l.sessionCost l.config.maxCost = false := by
        rw [hd, htp']
        exact decideCorrection.accept_iff_of_verified hp
      rw [hbook.config] at hiff
      exact haction.trans hiff
    | escalated _ _ records notJudged _ =>
      exact (notJudged none (Option.some.inj (records.symm.trans hrec))).elim
  · cases hcrash.symm.trans hrec

/-- The packet of a clean delegation. -/
def cleanPacket : ReducedStatePacket :=
  (StateReducer.empty.recordAll (cleanCall "task" []).own).reduce "task" 0
    (some (profileForLanguage .javascript).verifierPolicy) none ""

theorem verified_turn_accepted_of_singleTurn :
    (decideCorrection cleanPacket 0 1 2 2 0 none none none).action = .accept ∧
      ∃ o, (singleTurn none { maxCorrections := 1 } []).2.outcome? = some o ∧
        o.finalAction = .accept := by
  refine ⟨((verified_turn_accepted_iff cleanPacket (by decide)).1 0 1 2 2 0 none none).mpr
    ⟨by decide, rfl⟩, ?_⟩
  have hrun : ((singleTurn none { maxCorrections := 1 } []).2.outcome?.bind fun o =>
      o.allPackets.getLast?.map fun packet => decide (Verified packet)) = some true := by
    decide +kernel
  obtain ⟨o, ho, hrun⟩ := Option.bind_eq_some_iff.mp hrun
  obtain ⟨packet, hpacket, hver⟩ := Option.map_eq_some_iff.mp hrun
  exact ⟨o, ho, ((verified_turn_accepted_iff packet (of_decide_eq_true hver)).2 plainEnv quietTick
    "task-0" { description := "javascript", taskPass := none } { maxCorrections := 1 } _ _ o ho rfl
    rfl (by decide +kernel) hpacket).mpr (by decide +kernel)⟩

/-- With no correction left, a turn that passed its verification is escalated. -/
theorem verified_turn_escalated :
    (Verified cleanPacket ∧
      (decideCorrection cleanPacket 0 0 2 2 0 none none none).action = .escalate) ∧
      (singleTurn none { maxCorrections := 0 } []).2.outcome?.map
        (fun o => (o.finalAction, o.allPackets.getLast?.map (·.verification.overall))) =
          some (.escalate, some .pass) := by
  decide +kernel

/-! ### Pass verdicts -/

theorem passVerdict_sound {env : LoopEnv} {tick : Tick} {taskIdNow : String} {task : TaskInput}
    {config : CorrectionLoopConfig} {answers : List (Tick × Answer)} {s : OrchestratorState}
    {o : CorrectionLoopOutcome}
    (ho : (runCall env tick taskIdNow task config answers s).2.outcome? = some o) :
    let c := runCall env tick taskIdNow task config answers s
    (o.finalVerdict = .pass →
      (config.hasValidator = true →
        c.2.records.getLast? = some (.judged (some o.taskValidation)) ∧
          o.taskValidation.status = .pass) ∧
      (config.hasValidator = false →
        o.finalAction = .accept ∧
          o.allPackets.getLast?.map (·.verification.overall) = some .pass ∧
          (detectTaskProfile task.description).validatorRequired ≠ some true ∧
          c.2.actualMode ≠ .schemaContract) ∧
      ∀ packet e, o.allPackets.getLast? = some packet → packet.artifactEnforcement = some e →
        e.unterminated ≠ some true ∧ e.truncated ≠ some true) ∧
      (o.turns.length = o.allPackets.length ∧ o.turns.length = c.2.records.length) ∧
      (0 ≤ config.maxCorrections → (c.2.starts.length : Int) ≤ config.maxCorrections + 1) ∧
      c.1.busy = false := by
  intro c
  have hinv : Invariant ⟨task, config⟩ c :=
    runCall_invariant env tick taskIdNow task config answers s
  have hbook := hinv.bookkeeping
  have hconfig : c.2.hasValidator = config.hasValidator := congrArg _ hbook.config
  obtain ⟨hturns, hpackets⟩ := hinv.outcome_turns ho
  obtain ⟨hbusy, hend⟩ := hinv.of_outcome ho
  refine ⟨fun hpass => ?_, ?_, fun hmax => ?_, hbusy⟩
  · obtain ⟨rfl, hconc⟩ | ⟨⟨message, rfl⟩, -⟩ := hend
    · obtain ⟨hbroken, hverdict⟩ := computeFinalVerdict_eq_pass_iff.mp hpass
      refine ⟨fun hv => ?_, fun hv => ?_, fun packet e hpacket he => ?_⟩
      · obtain ⟨-, hstatus⟩ | ⟨hno, -⟩ := hverdict
        · exact ⟨hconc.validated_of_pass (hconfig.trans hv) hstatus, hstatus⟩
        · cases (hconfig.trans hv).symm.trans hno
      · obtain ⟨hyes, -⟩ | ⟨-, hreq, hmode, haction, hoverall⟩ := hverdict
        · cases (hconfig.trans hv).symm.trans hyes
        · refine ⟨haction, hoverall, ?_, hmode⟩
          rw [← hbook.description]
          exact hreq
      · have hnot := Bool.eq_false_iff.mp hbroken
        rw [Ne, hbook.protocolBroken_iff] at hnot
        exact ⟨fun hu => hnot ⟨packet, e, hpacket, he, .inl hu⟩,
          fun ht => hnot ⟨packet, e, hpacket, he, .inr ht⟩⟩
    · cases hpass
  · rw [hturns, hpackets]
    exact hbook.lengths
  · exact hbook.delegations.trans (max_le (by omega) le_rfl)

theorem passVerdict_sound_of_singleTurn :
    ∃ o, (singleTurn none { maxCorrections := 1 } []).2.outcome? = some o ∧
      o.finalVerdict = .pass ∧ o.allPackets.getLast?.map (·.verification.overall) = some .pass := by
  have hrun : (singleTurn none { maxCorrections := 1 } []).2.outcome?.map (·.finalVerdict) =
      some .pass := by decide +kernel
  obtain ⟨o, ho, hpass⟩ := Option.map_eq_some_iff.mp hrun
  exact ⟨o, ho, hpass, (((passVerdict_sound ho).1 hpass).2.1 rfl).2.1⟩

/-! ### Accepted and failed -/

theorem accepted_run_fails_iff {env : LoopEnv} {tick : Tick} {taskIdNow : String}
    {task : TaskInput} {config : CorrectionLoopConfig} {answers : List (Tick × Answer)}
    {s : OrchestratorState} {o : CorrectionLoopOutcome}
    (ho : (runCall env tick taskIdNow task config answers s).2.outcome? = some o)
    (haccept : o.finalAction = .accept) :
    o.finalVerdict = .fail ↔
      (∃ packet e, o.allPackets.getLast? = some packet ∧ packet.artifactEnforcement = some e ∧
        (e.unterminated = some true ∨ e.truncated = some true)) ∨
      config.hasValidator = false ∧
        (detectTaskProfile task.description).validatorRequired ≠ some true ∧
        task.taskPass = some true ∧
        o.allPackets.getLast?.map (·.verification.overall) ≠ some .pass := by
  have hinv : Invariant ⟨task, config⟩ (runCall env tick taskIdNow task config answers s) :=
    runCall_invariant env tick taskIdNow task config answers s
  have hbook := hinv.bookkeeping
  generalize runCall env tick taskIdNow task config answers s = c at ho hinv hbook
  have hconfig : c.2.hasValidator = config.hasValidator := congrArg _ hbook.config
  obtain ⟨-, ⟨rfl, hconc⟩ | ⟨⟨message, rfl⟩, -⟩⟩ := hinv.of_outcome ho
  · refine (computeFinalVerdict_accept_eq_fail_iff haccept).trans
      (or_congr hbook.protocolBroken_iff ?_)
    constructor
    · rintro (⟨hv, hfail⟩ | ⟨hv, hreq, hoverall⟩)
      · -- an accepted run with a validator was passed by it
        cases hfail.symm.trans ((finalAction_eq_accept_iff.mp haccept).1 hv)
      · have hv' := hconfig.symm.trans hv
        have htp : c.2.task.taskPass = some true := (hconc.of_accept haccept).resolve_right hoverall
        rw [(hbook.unvalidated hv').2] at htp
        rw [← hbook.description]
        exact ⟨hv', hreq, htp, hoverall⟩
    · rintro ⟨hv, hreq, -, hoverall⟩
      rw [← hbook.description] at hreq
      exact .inr ⟨hconfig.trans hv, hreq, hoverall⟩
  · cases haccept

/-- The caller declares the task passed, and the verifiers fail it. -/
theorem accepted_run_fails :
    (singleTurn (some true) { maxCorrections := 1 } [blockedSignal]).2.outcome?.map
      (fun o => (o.finalAction, o.finalVerdict)) = some (.accept, .fail) := by
  decide +kernel

theorem accepted_run_fails_iff_of_singleTurn :
    ∃ o, (singleTurn (some true) { maxCorrections := 1 } [blockedSignal]).2.outcome? = some o ∧
      o.finalVerdict = .fail := by
  have hrun : (singleTurn (some true) { maxCorrections := 1 } [blockedSignal]).2.outcome?.map
      (fun o => (o.finalAction, o.allPackets.getLast?.map (·.verification.overall))) =
        some (.accept, some .fail) := by decide +kernel
  obtain ⟨o, ho, hrun⟩ := Option.map_eq_some_iff.mp hrun
  obtain ⟨haccept, hoverall⟩ := Prod.mk.inj hrun
  refine ⟨o, ho, (accepted_run_fails_iff ho haccept).mpr (.inr ⟨rfl, by decide +kernel, rfl, ?_⟩)⟩
  rw [hoverall]
  decide

end KirkForge
