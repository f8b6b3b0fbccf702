import KirkForge.Orchestrator.TaskProfile
import KirkForge.Orchestrator.Types

/-!
# The truth model

`computeFinalVerdict` of `orchestrator/src/truth-model.ts`: the precedence table that turns the
outcome of a task run into its final verdict.
-/

namespace KirkForge

inductive FinalAction
  | accept | escalate
  deriving DecidableEq, Repr

def FinalAction.name : FinalAction → String
  | accept => "accept"
  | escalate => "escalate"

inductive FinalVerdict
  | pass | fail | error | unknown
  deriving DecidableEq, Repr

inductive SourceOfTruth
  | taskValidator | verifier
  deriving DecidableEq, Repr

structure TruthInput where
  taskValidation : TaskValidationResult
  hasValidator : Bool
  finalAction : FinalAction
  packet : Option ReducedStatePacket
  profile : TaskProfile
  actualMode : DelegationMode
  protocolBroken : Bool

structure TruthOutput where
  finalVerdict : FinalVerdict
  sourceOfTruth : SourceOfTruth
  reason : String
  deriving DecidableEq, Repr

def finalVerdictFromValidation (validation : TaskValidationResult) : FinalVerdict :=
  match validation.status with
  | .pass => .pass
  | .fail => .fail
  | .error => .unknown
  | .skipped => .unknown

def finalVerdictFromVerifier (finalAction : FinalAction) (packet : Option ReducedStatePacket) :
    FinalVerdict :=
  let overall := packet.map (·.verification.overall)
  if finalAction = .accept ∧ overall = some .pass then .pass
  else if finalAction = .escalate ∧ overall ≠ some .fail then .unknown
  else .fail

def overallText (packet : Option ReducedStatePacket) (default : String) : String :=
  (packet.map (·.verification.overall.name)).getD default

def computeFinalVerdict (input : TruthInput) : TruthOutput :=
  let overall := input.packet.map (·.verification.overall)
  if input.protocolBroken then {
    finalVerdict := .fail
    sourceOfTruth := if input.hasValidator then .taskValidator else .verifier
    reason := "protocol integrity broken (unterminated markers or truncated model output) — all " ++
      "artifact writes blocked" }
  else if input.hasValidator then {
    finalVerdict := finalVerdictFromValidation input.taskValidation
    sourceOfTruth := .taskValidator
    reason := "validator result: " ++ input.taskValidation.status.name }
  else if input.profile.validatorRequired = some true then {
    finalVerdict := .unknown
    sourceOfTruth := .verifier
    reason := "validator required for " ++ input.profile.language.name ++
      " profile but not configured — verifier pass is advisory only" }
  else if input.actualMode = .schemaContract then
    if overall = some .pass then {
      finalVerdict := .unknown
      sourceOfTruth := .verifier
      reason := "schema-contract validates structured output but does not persist files — pass " ++
        "cannot confirm code emission" }
    else {
      finalVerdict := finalVerdictFromVerifier input.finalAction input.packet
      sourceOfTruth := .verifier
      reason := "schema-contract verifier outcome: " ++ overallText input.packet "no packet" }
  else {
    finalVerdict := finalVerdictFromVerifier input.finalAction input.packet
    sourceOfTruth := .verifier
    reason := "verifier result: overall=" ++ overallText input.packet "none" ++ ", action=" ++
      input.finalAction.name }

theorem finalVerdictFromVerifier_eq_pass_iff {a : FinalAction} {p : Option ReducedStatePacket} :
    finalVerdictFromVerifier a p = .pass ↔
      a = .accept ∧ p.map (·.verification.overall) = some .pass := by
  simp only [finalVerdictFromVerifier]
  split
  · next h => exact iff_of_true rfl h
  · next h => refine iff_of_false ?_ h; split <;> nofun

/-- What a pass verdict rests on. -/
theorem computeFinalVerdict_eq_pass_iff {input : TruthInput} :
    (computeFinalVerdict input).finalVerdict = .pass ↔
      input.protocolBroken = false ∧
        (input.hasValidator = true ∧ input.taskValidation.status = .pass ∨
          input.hasValidator = false ∧ input.profile.validatorRequired ≠ some true ∧
            input.actualMode ≠ .schemaContract ∧ input.finalAction = .accept ∧
            input.packet.map (·.verification.overall) = some .pass) := by
  simp only [computeFinalVerdict]
  split
  · next hb => simp [hb]
  · next hb =>
    split
    · next hv =>
      simp only [hb, hv, finalVerdictFromValidation, true_and, Bool.true_eq_false, false_and,
        or_false]
      cases input.taskValidation.status <;> simp
    · next hv =>
      split
      · next hr => simp [hb, hv, hr]
      · next hr =>
        split
        · next hm =>
          split
          · simp [hb, hv, hm]
          · next hov => simp [finalVerdictFromVerifier_eq_pass_iff, hb, hv, hm, hov]
        · next hm => simp [finalVerdictFromVerifier_eq_pass_iff, hb, hv, hr, hm]

/-- A fail verdict on an accepted run. -/
theorem computeFinalVerdict_accept_eq_fail_iff {input : TruthInput}
    (haccept : input.finalAction = .accept) :
    (computeFinalVerdict input).finalVerdict = .fail ↔
      input.protocolBroken = true ∨
        (input.hasValidator = true ∧ input.taskValidation.status = .fail ∨
          input.hasValidator = false ∧ input.profile.validatorRequired ≠ some true ∧
            input.packet.map (·.verification.overall) ≠ some .pass) := by
  have hverifier : finalVerdictFromVerifier .accept input.packet = .fail ↔
      input.packet.map (·.verification.overall) ≠ some .pass := by
    by_cases hov : input.packet.map (·.verification.overall) = some .pass <;>
      simp [finalVerdictFromVerifier, hov]
  simp only [computeFinalVerdict, haccept]
  split
  · next hb => simp [hb]
  · next hb =>
    split
    · next hv =>
      simp only [hb, hv, finalVerdictFromValidation, true_and, Bool.true_eq_false, false_and,
        or_false, Bool.false_eq_true, false_or]
      cases input.taskValidation.status <;> simp
    · next hv =>
      split
      · next hr => simp [hb, hv, hr]
      · next hr =>
        split
        · split
          · next hov => simp [hb, hv, hov]
          · next hov => simp [hverifier, hb, hv, hr, hov]
        · simp [hverifier, hb, hv, hr]

end KirkForge
