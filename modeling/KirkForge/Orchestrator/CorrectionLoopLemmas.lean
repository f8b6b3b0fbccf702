import KirkForge.Orchestrator.CorrectionLoop

/-!
# The invariant of a correction loop call

`Invariant a c` describes a call made with the arguments `a` at each of its `await` points: the
recorded turns and packets go together (`Bookkeeping`), a turn in progress has not been passed by
an earlier validation (`InTurn`), and once the loop is over its last turn says why it ended
(`Conclusion`). Each segment keeps the invariant, and `runCall_invariant` carries it through a run.
-/

namespace KirkForge

/-- An artifact enforcement in the packet is a failed one. -/
def EnforcementFails (p : ReducedStatePacket) : Prop :=
  ∀ e, p.artifactEnforcement = some e → e.status = .fail

theorem SignalMap.reduce_enforcementFails (map : SignalMap) (taskId : String) (turn : Nat)
    (policy : Option VerifierPolicy) (policyHash : Option String) (now : String) :
    EnforcementFails (map.reduce taskId turn policy policyHash now) := by
  intro e he
  simp only [SignalMap.reduce, SignalMap.artifactEnforcement] at he
  split at he
  · cases he; rfl
  · cases he

theorem emptyEmissionOverride_enforcementFails {mode : DelegationMode} {p : ReducedStatePacket}
    (h : EnforcementFails p) : EnforcementFails (emptyEmissionOverride mode p) := by
  intro e he
  rw [emptyEmissionOverride] at he
  split at he
  · cases he; rfl
  · split at he
    · cases he; rfl
    · exact h e he

/-- The packet of a finished delegation comes from the reducer. -/
theorem finalizeValue_enforcementFails {s : DelegationState} {value : DelegationResult}
    {args : FinalizeArgs} : ∀ p ∈ (finalizeValue s value args).2.packet, EnforcementFails p := by
  rintro _ ⟨⟩
  exact emptyEmissionOverride_enforcementFails (SignalMap.reduce_enforcementFails _ _ _ _ _ _)

/-- The arguments of a call. -/
structure CallArgs where
  task : TaskInput
  config : CorrectionLoopConfig

structure Bookkeeping (a : CallArgs) (l : CallState) : Prop where
  config : l.config = a.config
  description : l.originalDescription = a.task.description
  lengths : l.turns.length = l.allPackets.length ∧ l.turns.length = l.records.length
  enforced : ∀ p ∈ l.allPackets, EnforcementFails p
  unvalidated : a.config.hasValidator = false →
    l.taskValidation.status = .skipped ∧ l.task.taskPass = a.task.taskPass
  delegations : (l.starts.length : Int) ≤ max 0 (a.config.maxCorrections + 1)

/-- The top of the turn loop. -/
structure AtHead (a : CallArgs) (l : CallState) : Prop where
  starts : l.starts.length ≤ l.turn
  turn : l.turn = 0 ∨ (l.turn : Int) ≤ a.config.maxCorrections
  turns : l.turns.length = l.turn
  notPassed : l.taskValidation.status ≠ .pass

/-- Inside a turn, before its validator has answered. -/
structure InTurn (a : CallArgs) (l : CallState) : Prop where
  starts : l.starts.length ≤ l.turn + 1
  turn : (l.turn : Int) ≤ a.config.maxCorrections
  turns : l.turns.length = l.turn
  notPassed : l.taskValidation.status ≠ .pass

/-- What the validator of a turn, if there is one, has said. -/
def Validated (l : CallState) (ran : Option TaskValidationResult) : Prop :=
  (l.hasValidator = false ∧ ran = none) ∨
    l.hasValidator = true ∧ ran = some l.taskValidation ∧
      (l.taskValidation.status = .pass ∧ l.task.taskPass = some true ∨
        l.taskValidation.status = .fail ∧ l.task.taskPass = some false ∨
        l.taskValidation.status = .error ∧ l.task.taskPass = none)

/-- Why the turn loop ended. -/
inductive Conclusion (l : CallState) : Prop
  | judged {d p wt ran} (turns : l.turns.getLast? = some d)
      (packets : l.allPackets.getLast? = some p)
      (records : l.records.getLast? = some (.judged ran))
      (decision : d = decideCorrection p l.turn l.config.maxCorrections wt l.sessionTokens
        l.sessionCost l.config.maxCost (some l.profile.language) l.task.taskPass)
      (action : d.action ≠ .correct) (validated : Validated l ran)
      (noError : l.taskValidation.status ≠ .error)
  | escalated {d r} (turns : l.turns.getLast? = some d) (action : d.action = .escalate)
      (records : l.records.getLast? = some r) (notJudged : ∀ ran, r ≠ .judged ran)
      (notPassed : l.taskValidation.status ≠ .pass)

def PcInvariant (a : CallArgs) (s : OrchestratorState) (l : CallState) : Prop :=
  match l.pc with
  | .loading => AtHead a l
  | .delegating .. => InTurn a l
  | .turnReturned result =>
    InTurn a l ∧ ∀ value, result = .ok value → ∀ p ∈ value.packet, EnforcementFails p
  | .isolating packet .. | .validating packet .. =>
    InTurn a l ∧ EnforcementFails packet ∧ l.hasValidator = true
  | .validated packet _ validation =>
    InTurn a l ∧ EnforcementFails packet ∧ l.hasValidator = true ∧ validation.status ≠ .skipped
  | .importing | .writingMemory | .flushing => Conclusion l
  | .crashFlushing _ => l.records.getLast? = some .crashed
  | .rejected => True
  | .finished o =>
    s.busy = false ∧ (o = loopOutcome l ∧ Conclusion l ∨
      (∃ message, o = crashOutcome l message) ∧ l.records.getLast? = some .crashed)

structure Invariant (a : CallArgs) (c : Suspended) : Prop where
  bookkeeping : Bookkeeping a c.2
  pc : PcInvariant a c.1 c.2

variable {env : LoopEnv} {tick : Tick} {a : CallArgs} {s : OrchestratorState} {l : CallState}

theorem Bookkeeping.push (h : Bookkeeping a l) {d : CorrectionDecision} {p : ReducedStatePacket}
    {r : TurnRecord} (hp : EnforcementFails p) : Bookkeeping a (l.push d p r) where
  config := h.config
  description := h.description
  lengths := by simpa [CallState.push] using h.lengths
  enforced := by
    intro q hq
    rcases List.mem_append.mp hq with hq | hq
    · exact h.enforced q hq
    · rw [List.mem_singleton.mp hq]; exact hp
  unvalidated := h.unvalidated
  delegations := h.delegations

theorem Bookkeeping.leaveTurn (h : Bookkeeping a l) : Bookkeeping a (leaveTurn l) :=
  ⟨h.1, h.2, h.3, h.4, h.5, h.6⟩

theorem Bookkeeping.withPc (h : Bookkeeping a l) {pc : Pc} : Bookkeeping a { l with pc } :=
  ⟨h.1, h.2, h.3, h.4, h.5, h.6⟩

theorem leave_busy {o : CorrectionLoopOutcome} : (leave o s l).1.busy = false :=
  cleanupTurnWorkspace_busy _

/-- A conclusion does not depend on where the call is and which directories it holds. -/
theorem Conclusion.transfer (h : Conclusion l) {pc : Pc} {dir : Option DirId} {dirs : List DirId} :
    Conclusion { l with pc, turnDir := dir, validatorDirs := dirs } := by
  cases h with
  | judged t p r d act v e => exact .judged t p r d act v e
  | escalated t act r nj np => exact .escalated t act r nj np

/-! ### The segments keep the invariant -/

theorem crash_invariant (h : Bookkeeping a l) (message : String) :
    Invariant a (crash env tick message s l) := by
  have hpush := h.push (d := {
    action := .escalate, rationale := "internal orchestrator error: " ++ message
    packet := reducePacket env tick s l 0, correctionCount := l.turns.length
    workerTokens := 0, sessionTokens := l.sessionTokens }) (r := .crashed)
    (SignalMap.reduce_enforcementFails (s.delegation.reducer.signalsOf l.taskId) l.taskId 0
      (some l.profile.verifierPolicy) env.policyHash tick.now)
  exact ⟨⟨hpush.1, hpush.2, hpush.3, hpush.4, hpush.5, hpush.6⟩, List.getLast?_concat ..⟩

theorem afterLoop_invariant (h : Bookkeeping a l) (hend : l.turns ≠ [] → Conclusion l) :
    Invariant a (afterLoop env tick s l) := by
  rw [afterLoop]
  split
  · exact crash_invariant h.leaveTurn _
  · next d hd =>
    have hturns : l.turns ≠ [] := fun hnil => by
      rw [leaveTurn, hnil] at hd
      cases hd
    exact ⟨h.leaveTurn.withPc, (hend hturns).transfer⟩

theorem startTurn_invariant (h : Bookkeeping a l) (hhead : AtHead a l)
    (hturn : (l.turn : Int) ≤ a.config.maxCorrections) :
    Invariant a (startTurn env tick s l) := by
  have hin : InTurn a l := ⟨by have := hhead.starts; omega, hturn, hhead.turns, hhead.notPassed⟩
  rw [startTurn]
  split
  · refine ⟨⟨h.1, h.2, h.3, h.4, h.5, h.6⟩, ⟨hin.1, hin.2, hin.3, hin.4⟩, ?_⟩
    rintro _ ⟨⟩
  · refine ⟨⟨h.1, h.2, h.3, h.4, h.5, h.6⟩, ⟨hin.1, hin.2, hin.3, hin.4⟩, ?_⟩
    rintro _ ⟨⟩
  · have hlen : l.starts.length + 1 ≤ l.turn + 1 := Nat.succ_le_succ hhead.starts
    refine ⟨⟨h.1, h.2, h.3, h.4, h.5, ?_⟩, ?_, hturn, hin.3, hin.4⟩
    · simp only [List.length_append, List.length_singleton]; omega
    · simpa using hlen

theorem loopHead_invariant (h : Bookkeeping a l) (hhead : AtHead a l) :
    Invariant a (loopHead env tick s l) := by
  rw [loopHead, h.config]
  split
  · next hturn => exact startTurn_invariant h hhead hturn
  · next hturn =>
    refine afterLoop_invariant h fun hturns => ?_
    have hzero : l.turn = 0 := hhead.turn.resolve_right hturn
    exact (hturns (List.eq_nil_of_length_eq_zero (hhead.turns.trans hzero))).elim

theorem beginLoop_invariant (h : Bookkeeping a l) (hhead : AtHead a l) :
    Invariant a (beginLoop env tick s l) := by
  simp only [beginLoop]
  split
  · refine crash_invariant (l := { l with actualMode := _ }) ?_ _
    exact ⟨h.1, h.2, h.3, h.4, h.5, h.6⟩
  · refine loopHead_invariant (l := { l with actualMode := _, baselineCwd := _ }) ?_ ?_
    · exact ⟨h.1, h.2, h.3, h.4, h.5, h.6⟩
    · exact ⟨hhead.1, hhead.2, hhead.3, hhead.4⟩

theorem startCall_invariant (taskIdNow : String) (task : TaskInput)
    (config : CorrectionLoopConfig) :
    Invariant ⟨task, config⟩ (startCall env tick taskIdNow task config s) := by
  have hbook (l : CallState) (hc : l.config = config)
      (hd : l.originalDescription = task.description)
      (ht : l.turns = [] ∧ l.allPackets = [] ∧ l.records = []) (hs : l.starts = [])
      (hv : l.taskValidation.status = .skipped ∧ l.task.taskPass = task.taskPass) :
      Bookkeeping ⟨task, config⟩ l :=
    ⟨hc, hd, by simp [ht], by simp [ht], fun _ => hv, by rw [hs]; exact le_max_left _ _⟩
  simp only [startCall]
  split
  · exact ⟨hbook _ rfl rfl ⟨rfl, rfl, rfl⟩ rfl ⟨rfl, rfl⟩, trivial⟩
  split
  · exact ⟨hbook _ rfl rfl ⟨rfl, rfl, rfl⟩ rfl ⟨rfl, rfl⟩, Nat.le_refl _, .inl rfl, rfl, nofun⟩
  · exact beginLoop_invariant (hbook _ rfl rfl ⟨rfl, rfl, rfl⟩ rfl ⟨rfl, rfl⟩)
      ⟨Nat.le_refl _, .inl rfl, rfl, nofun⟩

theorem afterDelegate_invariant (h : Bookkeeping a l) (hin : InTurn a l) {dir : DirId} {cwd : Place}
    {outcome : DelegateOutcome} {files : Tree} :
    Invariant a (afterDelegate s l dir cwd outcome files) := by
  refine ⟨⟨h.1, h.2, h.3, h.4, h.5, h.6⟩, ⟨hin.1, hin.2, hin.3, hin.4⟩, ?_⟩
  intro value hvalue
  cases outcome with
  | threw | failed => cases hvalue
  | executed v args => cases hvalue; exact finalizeValue_enforcementFails

theorem validatorErrored_invariant (h : Bookkeeping a l) {packet : ReducedStatePacket} {wt : Nat}
    (hp : EnforcementFails packet) (herr : l.taskValidation.status = .error) :
    Invariant a (validatorErrored env tick packet wt s l) := by
  refine afterLoop_invariant (h.push hp) fun _ => ?_
  refine .escalated (r := .validatorError l.taskValidation) (List.getLast?_concat ..) rfl
    (List.getLast?_concat ..) nofun ?_
  show l.taskValidation.status ≠ .pass
  rw [herr]; nofun

theorem judge_invariant (h : Bookkeeping a l) {packet : ReducedStatePacket} {wt : Nat}
    {ran : Option TaskValidationResult} (hp : EnforcementFails packet)
    (hstarts : l.starts.length ≤ l.turn + 1) (hturns : l.turns.length = l.turn)
    (hran : Validated l ran) (herr : l.taskValidation.status ≠ .error) :
    Invariant a (judge env tick packet wt ran s l) := by
  have hpush : Bookkeeping a (l.push (decideTurn packet wt l) packet (.judged ran)) := h.push hp
  rw [judge]
  split
  · next hact =>
    obtain ⟨hpass, hlt⟩ := decideCorrection.of_correct hact
    refine loopHead_invariant ⟨hpush.1, hpush.2, hpush.3, hpush.4, hpush.5, hpush.6⟩
      ⟨hstarts, .inr ?_, ?_, ?_⟩
    · rw [h.config] at hlt
      show ((l.turn + 1 : Nat) : Int) ≤ _
      omega
    · simp [nextTurn, CallState.push, hturns]
    · show l.taskValidation.status ≠ .pass
      rcases hran with ⟨hno, -⟩ | ⟨-, -, ⟨-, htp⟩ | ⟨hf, -⟩ | ⟨he, -⟩⟩
      · have hno' : a.config.hasValidator = false := by rw [← h.config]; exact hno
        rw [(h.unvalidated hno').1]; nofun
      · exact (hpass htp).elim
      · rw [hf]; nofun
      · rw [he]; nofun
  · next hact =>
    refine afterLoop_invariant hpush fun _ => ?_
    exact .judged (List.getLast?_concat ..) (List.getLast?_concat ..) (List.getLast?_concat ..)
      rfl hact hran herr

theorem afterValidation_invariant (h : Bookkeeping a l) {packet : ReducedStatePacket}
    {wt : Nat} {ran : Option TaskValidationResult} (hp : EnforcementFails packet)
    (hstarts : l.starts.length ≤ l.turn + 1) (hturns : l.turns.length = l.turn)
    (hran : Validated l ran) :
    Invariant a (afterValidation env tick packet wt ran s l) := by
  rw [afterValidation]
  split
  · next herr => exact validatorErrored_invariant h.leaveTurn hp herr
  · next herr => exact judge_invariant h.leaveTurn hp hstarts hturns hran herr

theorem delegationFailed_invariant (h : Bookkeeping a l) (hin : InTurn a l) (message : String) :
    Invariant a (delegationFailed env tick message s l) := by
  have hp : EnforcementFails (reducePacket env tick s l l.turn) :=
    SignalMap.reduce_enforcementFails _ _ _ _ _ _
  exact afterLoop_invariant (h.push hp).leaveTurn fun _ =>
    .escalated (List.getLast?_concat ..) rfl (List.getLast?_concat ..) nofun hin.notPassed

theorem isolate_invariant (h : Bookkeeping a l) (hin : InTurn a l) {packet : ReducedStatePacket}
    {wt : Nat} (hp : EnforcementFails packet) (hv : l.hasValidator = true) :
    Invariant a (isolate env tick packet wt s l) := by
  rw [isolate, createIsolatedWorkspace]
  split
  · exact ⟨h.withPc, ⟨hin.1, hin.2, hin.3, hin.4⟩, hp, hv⟩
  · exact ⟨⟨h.1, h.2, h.3, h.4, h.5, h.6⟩, ⟨hin.1, hin.2, hin.3, hin.4⟩, hp, hv⟩

theorem afterTurn_invariant (h : Bookkeeping a l) (hin : InTurn a l) {value : DelegationResult}
    (hvalue : ∀ p ∈ value.packet, EnforcementFails p) :
    Invariant a (afterTurn env tick value s l) := by
  have h' : Bookkeeping a (account value l) := ⟨h.1, h.2, h.3, h.4, h.5, h.6⟩
  have hin' : InTurn a (account value l) := ⟨hin.1, hin.2, hin.3, hin.4⟩
  have hp : EnforcementFails
      (value.packet.getD (reducePacket env tick s (account value l) (account value l).turn)) := by
    cases hpacket : value.packet with
    | none => exact SignalMap.reduce_enforcementFails _ _ _ _ _ _
    | some p => exact hvalue p (by rw [hpacket]; rfl)
  rw [afterTurn]
  split
  · next hs =>
    refine isolate_invariant h' hin' hp ?_
    show (_ || _) = true
    rw [CallState.structuredValidator] at hs
    rw [hs, Option.isSome_some, Bool.or_true]
  · next hs hc =>
    have hv : (account value l).hasValidator = true := by
      show (_ || _) = true
      rw [CallState.shellCommand] at hc
      rw [hc, Option.isSome_some, Bool.true_or]
    split
    · exact isolate_invariant h' hin' hp hv
    · exact ⟨h'.withPc, ⟨hin.1, hin.2, hin.3, hin.4⟩, hp, hv, nofun⟩
  · next hs hc =>
    refine afterValidation_invariant h' hp hin.starts hin.turns (.inl ⟨?_, rfl⟩)
    show (_ || _) = false
    rw [CallState.structuredValidator] at hs
    rw [CallState.shellCommand] at hc
    rw [hs, hc]; rfl

theorem startValidator_invariant (h : Bookkeeping a l) (hin : InTurn a l)
    {packet : ReducedStatePacket} {wt : Nat} (hp : EnforcementFails packet)
    (hv : l.hasValidator = true) {isolated : DirId} :
    Invariant a (startValidator env tick packet wt isolated s l) := by
  have hin' (pc : Pc) : InTurn a { l with pc } := ⟨hin.1, hin.2, hin.3, hin.4⟩
  rw [startValidator]
  split
  · dsimp only
    split
    · exact ⟨h.withPc, hin' _, hp, hv, nofun⟩
    · exact ⟨h.withPc, hin' _, hp, hv⟩
  · exact ⟨h.withPc, hin' _, hp, hv⟩

theorem recordValidation_bookkeeping (h : Bookkeeping a l) (hv : l.hasValidator = true)
    (validation : TaskValidationResult) : Bookkeeping a (recordValidation l validation) where
  config := h.config
  description := h.description
  lengths := h.lengths
  enforced := h.enforced
  unvalidated hno := by
    rw [← h.config] at hno
    exact absurd hv (Bool.eq_false_iff.mp hno)
  delegations := h.delegations

theorem recordValidation_validated (hv : l.hasValidator = true)
    {validation : TaskValidationResult} (hskip : validation.status ≠ .skipped) :
    Validated (recordValidation l validation) (some validation) := by
  refine .inr ⟨hv, rfl, ?_⟩
  rw [recordValidation]
  cases hst : validation.status with
  | pass => exact .inl ⟨rfl, rfl⟩
  | fail => exact .inr (.inl ⟨rfl, rfl⟩)
  | error => exact .inr (.inr ⟨rfl, rfl⟩)
  | skipped => exact (hskip hst).elim

/-! ### Runs -/

theorem resume_invariant (answer : Answer) (h : Invariant a (s, l)) :
    Invariant a (resume env tick answer s l) := by
  obtain ⟨hbook, hpc⟩ := h
  simp only [PcInvariant] at hpc
  unfold resume
  split
  · next hl =>
    rw [hl] at hpc
    exact beginLoop_invariant hbook hpc
  · exact crash_invariant hbook _
  · next hl =>
    rw [hl] at hpc
    exact afterDelegate_invariant hbook hpc
  · next hl =>
    rw [hl] at hpc
    exact afterTurn_invariant hbook hpc.1 (hpc.2 _ rfl)
  · next hl =>
    rw [hl] at hpc
    exact delegationFailed_invariant hbook hpc.1 _
  · exact crash_invariant hbook _
  · next hl =>
    rw [hl] at hpc
    exact startValidator_invariant hbook hpc.1 hpc.2.1 hpc.2.2
  · exact crash_invariant hbook _
  · next hl =>
    rw [hl] at hpc
    obtain ⟨hin, hp, hv⟩ := hpc
    exact ⟨hbook.withPc, ⟨hin.1, hin.2, hin.3, hin.4⟩, hp, hv,
      ExecOutcome.result_status_ne_skipped _ _ _⟩
  · next hl =>
    rw [hl] at hpc
    obtain ⟨hin, hp, hv, hskip⟩ := hpc
    exact afterValidation_invariant (recordValidation_bookkeeping hbook hv _) hp hin.starts
      hin.turns (recordValidation_validated hv hskip)
  · next hl =>
    rw [hl] at hpc
    exact ⟨hbook.withPc, hpc.transfer⟩
  · next hl =>
    rw [hl] at hpc
    exact ⟨hbook.withPc, hpc.transfer⟩
  · exact crash_invariant hbook _
  · next hl =>
    rw [hl] at hpc
    exact ⟨⟨hbook.1, hbook.2, hbook.3, hbook.4, hbook.5, hbook.6⟩, leave_busy,
      .inl ⟨rfl, hpc.transfer⟩⟩
  · exact crash_invariant hbook _
  · next hl =>
    rw [hl] at hpc
    exact ⟨⟨hbook.1, hbook.2, hbook.3, hbook.4, hbook.5, hbook.6⟩, leave_busy,
      .inr ⟨⟨_, rfl⟩, hpc⟩⟩
  · next hl =>
    rw [hl] at hpc
    exact ⟨⟨hbook.1, hbook.2, hbook.3, hbook.4, hbook.5, hbook.6⟩, leave_busy,
      .inr ⟨⟨_, rfl⟩, hpc⟩⟩
  · exact ⟨hbook, hpc⟩

variable (env tick) in
theorem runCall_invariant (taskIdNow : String) (task : TaskInput) (config : CorrectionLoopConfig)
    (answers : List (Tick × Answer)) (s : OrchestratorState) :
    Invariant ⟨task, config⟩ (runCall env tick taskIdNow task config answers s) :=
  Run.run_invariant (fun _ _ h => resume_invariant _ h) answers
    (startCall_invariant taskIdNow task config)

end KirkForge
