import KirkForge.CorrectionCore.CorrectionPrompt
import KirkForge.Orchestrator.Reducer

/-!
# Deciding on a correction

`decideCorrection` of `orchestrator/src/correction-loop.ts`, and the estimates of
`orchestrator/src/cost.ts`. Costs and rates are rational numbers.
-/

namespace KirkForge

/-! ### Cost estimation -/

structure CostRate where
  input : ℚ
  output : ℚ

/-- The table `PROVIDER_COST_RATES`, in its order. -/
def providerCostRates : List (String × CostRate) := [
  ("local-ollama", ⟨0, 0⟩),
  ("openrouter-free", ⟨0, 0⟩),
  ("nvidia-free", ⟨0, 0⟩),
  ("openai", ⟨15 / 100000, 6 / 10000⟩),
  ("anthropic", ⟨8 / 10000, 4 / 1000⟩),
  ("deepseek", ⟨14 / 1000000, 28 / 1000000⟩),
  ("google", ⟨375 / 10000000, 15 / 100000⟩),
  ("xai", ⟨2 / 10000, 8 / 10000⟩),
  ("groq", ⟨59 / 1000000, 79 / 1000000⟩),
  ("mistral", ⟨2 / 10000, 6 / 10000⟩),
  ("cohere", ⟨3 / 10000, 15 / 10000⟩)]

def resolveCostProviderKey (providerResolved : String) : String :=
  let keys := providerCostRates.map Prod.fst
  if providerResolved ∈ keys then providerResolved
  else
    let lower := Text.toLowerCase providerResolved
    (keys.find? fun key => Text.startsWith lower key).getD "local-ollama"

def estimateSimpleCost (provider : String) (promptTokens completionTokens : Nat) : ℚ :=
  match providerCostRates.lookup (resolveCostProviderKey provider) with
  | some r => (promptTokens * r.input + completionTokens * r.output) / 1000
  | none => 0

/-! ### The decision -/

/-- The place of a slot in the policy that a packet was reduced under. -/
def packetSlotPolicy (packet : ReducedStatePacket) (slot : VerifierSlot) : SlotPolicy :=
  match packet.verifierPolicy with
  | none => .required
  | some policy => slotPolicy policy.required policy.advisory slot

/-- `maxCost && sessionCost >= maxCost`: a budget of zero is no budget. -/
def exceedsBudget (sessionCost : ℚ) (maxCost : Option ℚ) : Bool :=
  maxCost.any fun budget => budget ≠ 0 && sessionCost ≥ budget

def budgetText (sessionCost : ℚ) (maxCost : Option ℚ) : String :=
  "session cost $" ++ Text.toFixed 4 sessionCost ++ " exceeds budget $" ++
    Text.toFixed 4 (maxCost.getD 0)

def decideCorrection (packet : ReducedStatePacket) (correctionCount : Nat) (maxCorrections : Int)
    (workerTokens sessionTokens : Nat) (sessionCost : ℚ) (maxCost : Option ℚ)
    (language : Option TaskLanguage) (taskPass : Option Bool) : CorrectionDecision :=
  let decide (action : CorrectionAction) (rationale : String)
      (correctionPrompt : Option String := none) : CorrectionDecision :=
    { action, rationale, correctionPrompt, packet, correctionCount, workerTokens, sessionTokens }
  if taskPass = some true then
    decide .accept "taskPass: true (external validator passed)"
  else if taskPass = some false then
    if (correctionCount : Int) ≥ maxCorrections then
      decide .escalate "taskPass: false (external validator failed); exceeded corrections"
    else if exceedsBudget sessionCost maxCost then
      decide .escalate
        ("taskPass: false (external validator failed); " ++ budgetText sessionCost maxCost)
    else
      decide .correct "taskPass: false (external validator failed); targeted correction"
        (buildCorrectionPrompt packet language)
  else if packet.verification.security.critical > 0 ∧
      packetSlotPolicy packet .security = .required then
    decide .escalate "critical security finding"
  else if packet.graph.brokenEdges > 0 ∧ packetSlotPolicy packet .graph = .required then
    decide .escalate (toString packet.graph.brokenEdges ++ " broken import edges")
  else if (correctionCount : Int) ≥ maxCorrections then
    decide .escalate ("exceeded " ++ toString maxCorrections ++ " corrections")
  else if exceedsBudget sessionCost maxCost then
    decide .escalate (budgetText sessionCost maxCost)
  else if packet.verification.overall = .pass then
    decide .accept "verification passed"
  else
    decide .correct ("verification " ++ packet.verification.overall.name ++ "; targeted correction")
      (buildCorrectionPrompt packet language)

/-- A packet that passed its own verification. -/
structure Verified (packet : ReducedStatePacket) : Prop where
  overall : packet.verification.overall = .pass
  security : ¬(packet.verification.security.critical > 0 ∧
    packetSlotPolicy packet .security = .required)
  graph : ¬(packet.graph.brokenEdges > 0 ∧ packetSlotPolicy packet .graph = .required)

instance (packet : ReducedStatePacket) : Decidable (Verified packet) :=
  decidable_of_iff
    (packet.verification.overall = .pass ∧
      ¬(packet.verification.security.critical > 0 ∧
        packetSlotPolicy packet .security = .required) ∧
      ¬(packet.graph.brokenEdges > 0 ∧ packetSlotPolicy packet .graph = .required))
    ⟨fun ⟨h1, h2, h3⟩ => ⟨h1, h2, h3⟩, fun h => ⟨h.1, h.2, h.3⟩⟩

namespace decideCorrection

variable {packet : ReducedStatePacket} {count : Nat} {maxCorrections : Int} {wt st : Nat}
  {cost : ℚ} {maxCost : Option ℚ} {lang : Option TaskLanguage} {taskPass : Option Bool}

/-- Below both limits a verified turn is accepted, at either limit it is escalated. -/
theorem accept_iff_of_verified (hp : Verified packet) :
    (decideCorrection packet count maxCorrections wt st cost maxCost lang none).action = .accept ↔
      (count : Int) < maxCorrections ∧ exceedsBudget cost maxCost = false := by
  simp only [decideCorrection, reduceCtorEq, if_false, if_neg hp.security, if_neg hp.graph,
    if_pos hp.overall]
  split
  · next hcount => exact iff_of_false nofun fun h => absurd h.1 (not_lt.mpr hcount)
  split
  · next hcost => exact iff_of_false nofun fun h => by rw [hcost] at h; cases h.2
  · next hcount hcost => exact iff_of_true rfl ⟨not_le.mp hcount, Bool.eq_false_iff.mpr hcost⟩

/-- Acceptance needs the validator's word or a passing packet. -/
theorem of_accept
    (h : (decideCorrection packet count maxCorrections wt st cost maxCost lang taskPass).action =
      .accept) :
    taskPass = some true ∨ taskPass = none ∧ packet.verification.overall = .pass := by
  cases taskPass with
  | none =>
    refine .inr ⟨rfl, ?_⟩
    simp only [decideCorrection, reduceCtorEq, if_false] at h
    by_contra hov
    rw [if_neg hov] at h
    split at h
    · cases h
    split at h
    · cases h
    split at h
    · cases h
    · split at h <;> cases h
  | some b =>
    cases b with
    | true => exact .inl rfl
    | false =>
      simp only [decideCorrection, Option.some.injEq, Bool.false_eq_true, if_false, if_true] at h
      split at h
      · cases h
      · split at h <;> cases h

theorem accept_of_taskPass :
    (decideCorrection packet count maxCorrections wt st cost maxCost lang (some true)).action =
      .accept := by
  simp [decideCorrection]

/-- A correction is asked for only where another turn is allowed. -/
theorem of_correct
    (h : (decideCorrection packet count maxCorrections wt st cost maxCost lang taskPass).action =
      .correct) :
    taskPass ≠ some true ∧ (count : Int) < maxCorrections := by
  cases taskPass with
  | none =>
    refine ⟨nofun, ?_⟩
    simp only [decideCorrection, reduceCtorEq, if_false] at h
    split at h
    · cases h
    split at h
    · cases h
    split at h
    · cases h
    · next hcount => exact not_le.mp hcount
  | some b =>
    cases b with
    | true => rw [accept_of_taskPass] at h; cases h
    | false =>
      refine ⟨nofun, ?_⟩
      simp only [decideCorrection, Option.some.injEq, Bool.false_eq_true, if_false, if_true] at h
      split at h
      · cases h
      · next hcount => exact not_le.mp hcount

end decideCorrection

end KirkForge
