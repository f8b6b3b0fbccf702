import KirkForge.Orchestrator.Finalize

/-!
# Delegations judged on their own signals

A delegation is judged on its own signals when its packet, contributing signals apart, is the one
that an orchestrator without any history would attach. That holds as long as the reducer has no
signal of the task that the delegation does not supersede (`Superseded`), and it fails for a task
id whose earlier delegation left an enforcement behind: `finalizeDelegation` never resets the task.
-/

namespace KirkForge

/-- The arguments of a call of `delegate` that reaches `finalizeDelegation`, or ends in an error
of the mode executor. -/
structure DelegateCall where
  result : Except String DelegationResult
  args : FinalizeArgs

/-- The public calls that record events. -/
inductive Call
  | delegate (call : DelegateCall)
  | verify (taskId description : String) (files : Option (List String)) (env : VerifierEnv)
      (policyHash : Option String)

def Call.step (s : DelegationState) : Call → DelegationState
  | .delegate call => (finalizeDelegation s call.result call.args).1
  | .verify taskId description files env policyHash =>
    (KirkForge.verify s taskId description files env policyHash).1

/-- The packet attached to the result of a delegation. -/
def DelegateCall.packet (s : DelegationState) (call : DelegateCall) : Option ReducedStatePacket :=
  match (finalizeDelegation s call.result call.args).2 with
  | .ok value => value.packet
  | .error _ => none

/-- The events emitted during the call. -/
def DelegateCall.own (call : DelegateCall) : List ReducerSignal :=
  match call.result with
  | .ok value => call.args.events value
  | .error _ => []

/-- The call's packet depends on the events of the call alone. -/
def JudgedOnOwnSignals (s : DelegationState) : Call → Prop
  | .delegate call =>
    (call.packet s).map ReducedStatePacket.judgement =
      (call.packet .empty).map ReducedStatePacket.judgement
  | .verify .. => True

/-- The files listed by the emissions that the reducer holds for a task. -/
def storedFiles (r : StateReducer) (taskId : String) : List EmittedFile :=
  (((r.signalsOf taskId).get? .artifactEmitted).getD []).flatMap SignalMap.emittedFiles

/-- Every kind of signal that the reducer holds for the task is emitted again by the call, and no
file is left from earlier emissions. -/
def Superseded (s : DelegationState) : Call → Prop
  | .delegate call =>
    (∀ kind ∈ (s.reducer.signalsOf call.args.taskId).keys,
      recorded call.own call.args.taskId kind ≠ []) ∧ storedFiles s.reducer call.args.taskId = []
  | .verify .. => True

/-! ### One call -/

variable {r : StateReducer} {h : List ReducerSignal} {t : String}

theorem Represents.emissions (H : Represents r h) :
    (r.signalsOf t).emissions =
      if recorded h t .artifactEmitted = [] then none
      else
        let files := (recorded h t .artifactEmitted).flatMap SignalMap.emittedFiles
        some { filesWritten := files.length, totalBytes := (files.map (·.bytes)).sum, files } := by
  rw [SignalMap.emissions, H]
  cases recorded h t .artifactEmitted <;> rfl

theorem Represents.keys (H : Represents r h) {k : SignalKind} :
    k ∈ (r.signalsOf t).keys ↔ recorded h t k ≠ [] := by
  rw [← OrderedMap.has_iff_mem_keys, H.has, Option.isSome_iff_ne_none, Ne, Ne,
    lastSignal_eq_none_iff]

/-- Behind superseded signals the reducer shows what the new events alone would show. -/
theorem Represents.sameView (H : Represents r h) {own : List ReducerSignal}
    (hkinds : ∀ k, recorded h t k ≠ [] → recorded own t k ≠ [])
    (hfiles : (recorded h t .artifactEmitted).flatMap SignalMap.emittedFiles = []) :
    SameView ((r.recordAll own).signalsOf t) ((StateReducer.empty.recordAll own).signalsOf t) := by
  have hnew : Represents (r.recordAll own) (h ++ own) := H.recordAll own
  have hown : Represents (StateReducer.empty.recordAll own) own := Represents.empty.recordAll own
  have hlast (k : SignalKind) : lastSignal (h ++ own) t k = lastSignal own t k := by
    cases hk : recorded h t k with
    | nil => exact lastSignal_append_of_not_recorded hk
    | cons s l =>
      have hne : recorded h t k ≠ [] := by rw [hk]; exact List.cons_ne_nil s l
      exact lastSignal_append_of_recorded (hkinds k hne)
  refine ⟨fun k => ?_, fun k => ?_, ?_⟩
  · rw [hnew.get, hown.get, hlast]
  · rw [hnew.has, hown.has, hlast]
  · have hnil : recorded h t .artifactEmitted ++ recorded own t .artifactEmitted = [] ↔
        recorded own t .artifactEmitted = [] := by
      rw [List.append_eq_nil_iff]
      refine and_iff_right_of_imp fun ho => ?_
      exact not_not.mp fun hh => hkinds _ hh ho
    rw [hnew.emissions, hown.emissions, recorded_append, List.flatMap_append, hfiles,
      List.nil_append]
    simp only [hnil]

theorem emptyEmissionOverride_judgement (mode : DelegationMode) (p : ReducedStatePacket) :
    (emptyEmissionOverride mode p).judgement = emptyEmissionOverride mode p.judgement := by
  have hchanges : p.judgement.changes = p.changes := rfl
  have henf : p.judgement.artifactEnforcement = p.artifactEnforcement := rfl
  have hemit : p.judgement.emissions = p.emissions := rfl
  rw [emptyEmissionOverride, emptyEmissionOverride, hchanges, henf, hemit]
  split
  · rfl
  · split <;> rfl

theorem judgedOnOwnSignals_of_superseded {s : DelegationState} (H : Represents s.reducer h)
    {call : Call} (hsup : Superseded s call) : JudgedOnOwnSignals s call := by
  cases call with
  | verify => trivial
  | delegate call =>
    obtain ⟨result, args⟩ := call
    cases result with
    | error e => rfl
    | ok value =>
      obtain ⟨hkinds, hfiles⟩ := hsup
      rw [storedFiles, H.getD_get?] at hfiles
      have hview : SameView ((s.reducer.recordAll (args.events value)).signalsOf args.taskId)
          ((StateReducer.empty.recordAll (args.events value)).signalsOf args.taskId) :=
        H.sameView (fun k hk => hkinds k (H.keys.mpr hk)) hfiles
      have hpacket := hview.reduce args.taskId 0 (some args.profile.verifierPolicy) args.policyHash
        args.env.now
      show some _ = some _
      rw [emptyEmissionOverride_judgement, emptyEmissionOverride_judgement]
      exact congrArg (fun p => some (emptyEmissionOverride args.mode p)) hpacket

/-! ### Sequences of calls -/

theorem exists_represents_step {s : DelegationState} (H : ∃ h, Represents s.reducer h)
    (call : Call) : ∃ h, Represents (call.step s).reducer h := by
  obtain ⟨h, H⟩ := H
  cases call with
  | verify => exact ⟨_, (H.recordAll _).resetTask _⟩
  | delegate call =>
    obtain ⟨result, args⟩ := call
    cases result with
    | error e => exact ⟨h, H⟩
    | ok value => exact ⟨_, H.recordAll (args.events value)⟩

theorem judged_on_own_signals {calls : List Call}
    (h : Run.AllSteps Call.step Superseded DelegationState.empty calls) :
    Run.AllSteps Call.step JudgedOnOwnSignals DelegationState.empty calls :=
  h.mono (I := fun s => ∃ h, Represents s.reducer h) (fun _ call H => exists_represents_step H call)
    (fun _ _ ⟨_, H⟩ hsup => judgedOnOwnSignals_of_superseded H hsup) ⟨[], Represents.empty⟩

/-- A delegation in hard-prompt mode that changes one file, is found clean by the verifiers and
carries the given artifact signals. -/
def cleanCall (taskId : String) (signals : List DelegationSignalValue) : DelegateCall where
  result := .ok {
    decision := { mode := .hardPrompt, reason := "", autoRouted := true }
    emission := {
      agentId := "agent", content := "", promptTokens := 1, completionTokens := 1
      totalTokens := 2, model := "model", format := .hardPrompt }
    signals := signals.map fun value =>
      { id := "sig", taskId, domain := "code", source := "agent", ts := "", value } }
  args := {
    taskId, mode := .hardPrompt, profile := profileForLanguage .javascript
    providerKey := "local-ollama"
    env := {
      execFile := fun _ _ => true
      now := ""
      emitted := fun taskId _ _ _ =>
        let event (value : SignalValue) : ReducerSignal := { taskId, value, timestamp := "" }
        [event (.verifyLint { status := some .pass, errors := 0, warnings := 0 }),
          event (.verifySecurity { status := some .pass, findings := 0, critical := 0, high := 0 }),
          event (.stateChanges {
            filesChanged := 1, paths := ["a.js"], insertions := 1, deletions := 0 })] } }

def blockedSignal : DelegationSignalValue :=
  .artifactBlocked { blockedPaths := [{ path := "a.sh", reason := "forbidden extension .sh" }] }

theorem judged_on_own_signals_of_fresh_ids :
    Run.AllSteps Call.step JudgedOnOwnSignals DelegationState.empty
      [.delegate (cleanCall "task-1" [blockedSignal]), .delegate (cleanCall "task-2" [])] :=
  judged_on_own_signals ⟨⟨by decide, by decide⟩, ⟨by decide, by decide⟩, trivial⟩

/-- Under one task id the clean second delegation inherits the block of the first. -/
theorem blocked_delegation_fails_the_next :
    let first := cleanCall "task" [blockedSignal]
    let second := cleanCall "task" []
    ((second.packet (Call.step .empty (.delegate first))).map (·.verification.overall) =
        some .fail ∧
      (second.packet .empty).map (·.verification.overall) = some .pass) ∧
      ¬Run.AllSteps Call.step JudgedOnOwnSignals .empty [.delegate first, .delegate second] := by
  refine ⟨by decide, fun h => ?_⟩
  have hsecond := congrArg (Option.map (·.verification.overall)) h.2.1
  revert hsecond
  decide

end KirkForge
