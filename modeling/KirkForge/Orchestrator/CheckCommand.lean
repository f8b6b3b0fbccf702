import KirkForge.Orchestrator.FailClosed
import KirkForge.Orchestrator.Finalize

/-!
# The check command

`runCheckCommand` reports a failed check as an event of the kind of the type verifier, which runs
after it, and the reducer reads the last event of a kind. `failedCheck_fails_iff` says what a failed
check is worth: if the bus drops its event, or with an event of the type verifier behind it, the
verdict is the one without it.
-/

namespace KirkForge

/-! ### What the command comes to -/

/-- The program that `runCheckCommand` starts, with its arguments. -/
def checkProgram (checkCommand : String) (files : List String)
    (structured : Option StructuredCheckCommand) : Option (String × List String) :=
  match structured with
  | some s =>
    if s.command ≠ "" then
      some (s.command, if s.appendFiles ≠ some false then s.args ++ files else s.args)
    else shell
  | none => shell
where
  shell : Option (String × List String) :=
    match Text.splitSpaces checkCommand with
    | [] => none
    | cmd :: args => if cmd = "" ∨ files = [] then none else some (cmd, args ++ files)

/-- The check command of the profile is run on the written files and fails. -/
def CheckFails (env : VerifierEnv) (language : Option TaskLanguage)
    (writtenFiles : Option (List String)) : Prop :=
  ∃ l files command args, language = some l ∧ writtenFiles = some files ∧ files ≠ [] ∧
    (profileForLanguage l).checkCommand ≠ "" ∧
    checkProgram (profileForLanguage l).checkCommand files (profileForLanguage l).structuredCheck =
      some (command, args) ∧
    env.execFile command args = false

variable {env : VerifierEnv} {taskId : String} {r : StateReducer} {h h' : List ReducerSignal}
  {t : String}

theorem runCheckCommand_of_checkProgram {checkCommand command : String} {files args : List String}
    {structured : Option StructuredCheckCommand}
    (hprogram : checkProgram checkCommand files structured = some (command, args)) :
    runCheckCommand env checkCommand files taskId structured =
      if env.execFile command args then [] else env.emit [checkCommandEvent env taskId] := by
  have hshell (hs : checkProgram.shell checkCommand files = some (command, args)) :
      runCheckCommand.shell checkCommand files
          (fun command args => if env.execFile command args then [] else
            env.emit [checkCommandEvent env taskId]) =
        if env.execFile command args then [] else env.emit [checkCommandEvent env taskId] := by
    rw [checkProgram.shell] at hs
    rw [runCheckCommand.shell]
    cases hsplit : Text.splitSpaces checkCommand with
    | nil =>
      rw [hsplit] at hs
      cases hs
    | cons cmd cmdArgs =>
      rw [hsplit] at hs
      dsimp only at hs ⊢
      split at hs
      · cases hs
      · next hrun =>
        cases hs
        exact if_neg hrun
  cases structured with
  | none => exact hshell hprogram
  | some s =>
    rw [checkProgram.eq_def] at hprogram
    rw [runCheckCommand.eq_def]
    dsimp only at hprogram ⊢
    by_cases hc : s.command ≠ ""
    · rw [if_pos hc] at hprogram ⊢
      cases hprogram
      rfl
    · rw [if_neg hc] at hprogram ⊢
      exact hshell hprogram

theorem runVerifiers_of_checkFails {language : Option TaskLanguage} {files : Option (List String)}
    {writtenFiles : Option (List String)} (hcheck : CheckFails env language writtenFiles) :
    runVerifiers env taskId files language writtenFiles =
      env.emit [checkCommandEvent env taskId] ++
        env.emitted taskId files language writtenFiles := by
  obtain ⟨l, written, command, args, rfl, rfl, hne, hcommand, hprogram, hexec⟩ := hcheck
  obtain ⟨f, fs, rfl⟩ := List.exists_cons_of_ne_nil hne
  show (if _ then _ else _) ++ _ = _
  rw [if_pos hcommand, runCheckCommand_of_checkProgram hprogram, hexec]
  rfl

/-! ### The verdict without a policy -/

/-- What a missing policy comes to: four of the slots are required, and may be skipped. -/
def effectivePolicy (h : List ReducerSignal) (t : String) : Option VerifierPolicy → VerifierPolicy
  | some policy => policy
  | none =>
    { required := [.lint, .types, .security, .graph].filter fun slot =>
        lastStatus h t slot ≠ some (some .skipped)
      advisory := [] }

theorem mem_required_effectivePolicy_none {slot : VerifierSlot} :
    slot ∈ (effectivePolicy h t none).required ↔
      slot ≠ .imports ∧ lastStatus h t slot ≠ some (some .skipped) := by
  have hslot : slot ∈ [VerifierSlot.lint, .types, .security, .graph] ↔ slot ≠ .imports := by
    cases slot <;> decide
  rw [effectivePolicy, List.mem_filter, hslot, decide_eq_true_eq]

theorem overall_eq_fail_iff_of_none (H : Represents r h) (turn : Nat) (policyHash : Option String)
    (now : String) :
    (r.reduce t turn none policyHash now).verification.overall = .fail ↔
      FailCause h t (effectivePolicy h t none) := by
  have hna (slot : VerifierSlot) : decide (slot ∈ (r.signalsOf t).notApplicable none) = false :=
    decide_eq_false List.not_mem_nil
  simp only [StateReducer.reduce, SignalMap.reduce, SignalMap.overall, hna]
  rw [slotsOverall_eq_fail_iff, H.lint_status, H.types_status, H.sec_status, H.graph_status]
  by_cases hmiss : ∃ slot ∈ (effectivePolicy h t none).required, lastStatus h t slot = none
  · obtain ⟨slot, hreq, hs⟩ := hmiss
    have hdefault : (lastStatus h t slot).join.getD (SignalMap.defaultStatus false) = .error := by
      rw [hs]
      rfl
    refine iff_of_true (.inl ?_) (.missing hreq hs)
    cases slot with
    | imports => exact ((mem_required_effectivePolicy_none.mp hreq).1 rfl).elim
    | lint => exact .inl hdefault
    | types => exact .inr (.inl hdefault)
    | security => exact .inr (.inr (.inl hdefault))
    | graph => exact .inr (.inr (.inr hdefault))
  · have hskip : ¬∃ slot ∈ (effectivePolicy h t none).required,
        lastStatus h t slot = some (some .skipped) :=
      by
        rintro ⟨_, hreq, hs⟩
        exact (mem_required_effectivePolicy_none.mp hreq).2 hs
    have hnac (slot : VerifierSlot) (hslot : slot ≠ .imports) :
        false = true ↔ lastStatus h t slot = none := by
      refine iff_of_false Bool.false_ne_true fun hs => hmiss ⟨slot, ?_, hs⟩
      exact mem_required_effectivePolicy_none.mpr ⟨hslot, by rw [hs]; rintro ⟨⟩⟩
    have hgraph : (SignalMap.graphPolicy none = .required ∧
        ∃ v, lastSignal h t .stateGraph = some (.stateGraph v) ∧ v.status ≠ some .skipped ∧
          0 < v.brokenEdges) ↔ .graph ∈ (effectivePolicy h t none).required ∧
        ∃ v, lastSignal h t .stateGraph = some (.stateGraph v) ∧ v.status ≠ some .skipped ∧
          0 < v.brokenEdges := by
      refine and_congr_left ?_
      rintro ⟨v, hv, hs, _⟩
      refine iff_of_true rfl (mem_required_effectivePolicy_none.mpr ⟨by decide, ?_⟩)
      rw [lastStatus, slotToSignal, hv]
      exact fun hskip => hs (Option.some.inj hskip)
    rw [failCause_iff_of_present hmiss hskip, SignalMap.status_eq_error_iff (hnac .lint (by decide)),
      SignalMap.status_eq_error_iff (hnac .types (by decide)),
      SignalMap.status_eq_error_iff (hnac .security (by decide)),
      SignalMap.status_eq_error_iff (hnac .graph (by decide)), H.types_errors (hnac _ (by decide)),
      H.lint_errors (hnac _ (by decide)), H.sec_critical, H.graph_brokenEdges (hnac _ (by decide)),
      hgraph, H.artifactEnforcement_isSome]

theorem overall_eq_fail_iff_effectivePolicy (H : Represents r h) (turn : Nat)
    (policy : Option VerifierPolicy) (policyHash : Option String) (now : String) :
    (r.reduce t turn policy policyHash now).verification.overall = .fail ↔
      FailCause h t (effectivePolicy h t policy) := by
  cases policy with
  | none => exact overall_eq_fail_iff_of_none H turn policyHash now
  | some policy => exact overall_eq_fail_iff H turn policy policyHash now

/-! ### Histories with the same last events -/

theorem effectivePolicy_congr (hlast : ∀ k, lastSignal h t k = lastSignal h' t k)
    (policy : Option VerifierPolicy) :
    effectivePolicy h t policy = effectivePolicy h' t policy := by
  cases policy with
  | some policy => rfl
  | none => simp only [effectivePolicy, lastStatus_congr fun k _ => hlast k]

/-! ### The verdict after a failed check -/

theorem emit_checkCommandEvent (env : VerifierEnv) (taskId : String) :
    env.emit [checkCommandEvent env taskId] =
      if env.handsOver .verifyTypes then [checkCommandEvent env taskId] else [] := by
  rw [VerifierEnv.emit, List.filter_singleton, Bool.cond_eq_ite]
  rfl

theorem failedCheck_fails_iff (H : Represents r h) (env : VerifierEnv) (taskId : String)
    (files : Option (List String)) (language : Option TaskLanguage)
    (writtenFiles : Option (List String)) (turn : Nat) (policy : Option VerifierPolicy)
    (policyHash : Option String) (now : String) (hcheck : CheckFails env language writtenFiles) :
    let emitted := env.emitted taskId files language writtenFiles
    let history := h ++ emitted
    ((r.recordAll (runVerifiers env taskId files language writtenFiles)).reduce taskId turn policy
        policyHash now).verification.overall = .fail ↔
      (env.handsOver .verifyTypes = true ∧ recorded emitted taskId .verifyTypes = []) ∨
        FailCause history taskId (effectivePolicy history taskId policy) := by
  intro emitted history
  rw [overall_eq_fail_iff_effectivePolicy (H.recordAll _), runVerifiers_of_checkFails hcheck,
    emit_checkCommandEvent]
  cases env.handsOver .verifyTypes with
  | false =>
    rw [if_neg Bool.false_ne_true, List.nil_append, or_iff_right fun h => Bool.false_ne_true h.1]
  | true =>
    rw [if_pos rfl, List.singleton_append, and_iff_right rfl]
    by_cases hlater : recorded emitted taskId .verifyTypes = []
    · have hlast : lastSignal (h ++ checkCommandEvent env taskId :: emitted) taskId .verifyTypes =
          some (.verifyTypes { status := some .fail, errors := 1 }) :=
        lastSignal_append_cons_of_not_recorded (e := checkCommandEvent env taskId) hlater
      exact iff_of_true (.types hlast Nat.one_pos) (.inl hlater)
    · have hlast (k : SignalKind) :
          lastSignal (h ++ checkCommandEvent env taskId :: emitted) taskId k =
            lastSignal history taskId k :=
        lastSignal_append_cons_of_recorded (e := checkCommandEvent env taskId) hlater taskId k
      rw [or_iff_right hlater, effectivePolicy_congr hlast]
      exact ⟨FailCause.congr fun k _ => hlast k, FailCause.congr fun k _ => (hlast k).symm⟩

/-- Verifiers that find nothing in a JavaScript file, in a directory without `tsconfig.json`. -/
def brokenScript (types : List ReducerSignal) : VerifierEnv where
  execFile := fun _ _ => false
  now := ""
  emitted := fun taskId _ _ _ =>
    let event (value : SignalValue) : ReducerSignal := { taskId, value, timestamp := "" }
    [event (.verifyLint { status := some .pass, errors := 0, warnings := 0 }),
      event (.verifySecurity { status := some .pass, findings := 0, critical := 0, high := 0 })] ++
    types

theorem brokenScript_checkFails (types : List ReducerSignal) :
    CheckFails (brokenScript types) (some .javascript) (some ["a.js"]) :=
  ⟨.javascript, ["a.js"], "node", ["--check", "a.js"], rfl, rfl, nofun, by decide, by decide, rfl⟩

theorem failedCheck_fails_of_no_types :
    ((StateReducer.empty.recordAll (runVerifiers (brokenScript []) "task" none (some .javascript)
      (some ["a.js"]))).reduce "task" 0 (some (profileForLanguage .javascript).verifierPolicy)
        none "").verification.overall = .fail :=
  (failedCheck_fails_iff .empty _ _ _ _ _ _ _ _ _ (brokenScript_checkFails [])).mpr (.inl ⟨rfl, rfl⟩)

/-- `TscEmitter` in a directory without `tsconfig.json`. -/
def skippedTypes : ReducerSignal :=
  { taskId := "task", timestamp := ""
    value := .verifyTypes { status := some .skipped, errors := 0 } }

/-- `node --check` fails, and the type verifier then skips the directory. -/
theorem failedCheck_masked :
    CheckFails (brokenScript [skippedTypes]) (some .javascript) (some ["a.js"]) ∧
      ((StateReducer.empty.recordAll (runVerifiers (brokenScript [skippedTypes]) "task" none
        (some .javascript) (some ["a.js"]))).reduce "task" 0
          (some (profileForLanguage .javascript).verifierPolicy) none "").verification.overall =
            .pass :=
  ⟨brokenScript_checkFails _, by decide⟩

end KirkForge
