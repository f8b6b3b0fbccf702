import KirkForge.Orchestrator.ReducerLemmas

/-!
# Fail-closed reduction

`FailCause h t policy` lists, on the history of a task, everything that makes `reduce` fail it.
The status of the import verifier is not on the list: `verifierError` is computed from the other
four slots. `overall_eq_fail_iff` shows that the list is complete, and `failClosed_iff` derives
from it exactly when a missing, skipped or crashed required verifier fails the task.
-/

namespace KirkForge

/-- What makes the reducer fail a task. -/
inductive FailCause (h : List ReducerSignal) (t : String) (policy : VerifierPolicy) : Prop
  | missing {slot} (hreq : slot ∈ policy.required) (hs : lastStatus h t slot = none)
  | skipped {slot} (hreq : slot ∈ policy.required) (hs : lastStatus h t slot = some (some .skipped))
  | crashed (slot) (hslot : slot ≠ .imports)
      (hs : lastStatus h t slot = some none ∨ lastStatus h t slot = some (some .error))
  | lint {v} (hv : lastSignal h t .verifyLint = some (.verifyLint v)) (he : 0 < v.errors)
  | types {v} (hv : lastSignal h t .verifyTypes = some (.verifyTypes v)) (he : 0 < v.errors)
  | security {v} (hv : lastSignal h t .verifySecurity = some (.verifySecurity v))
      (hc : 0 < v.critical)
  | graph {v} (hreq : .graph ∈ policy.required)
      (hv : lastSignal h t .stateGraph = some (.stateGraph v)) (hs : v.status ≠ some .skipped)
      (hb : 0 < v.brokenEdges)
  | blocked {v} (hv : lastSignal h t .artifactBlocked = some (.artifactBlocked v))
      (hp : v.blockedPaths ≠ [])
  | unterminated (hv : lastSignal h t .artifactUnterminated ≠ none)
  | truncated (hv : lastSignal h t .artifactTruncated ≠ none)

theorem slotsOverall_eq_fail_iff {l : LintSlot} {ty : TypesSlot} {s : SecuritySlot}
    {g : GraphSlot} {gp : SlotPolicy} {ae : Option ArtifactEnforcement} :
    SignalMap.slotsOverall l ty s g gp ae = .fail ↔
      (l.status = .error ∨ ty.status = .error ∨ s.status = .error ∨ g.status = .error) ∨
      0 < ty.errors ∨ 0 < l.errors ∨ 0 < s.critical ∨ (gp = .required ∧ 0 < g.brokenEdges) ∨
      ae.isSome = true := by
  simp only [SignalMap.slotsOverall]
  split
  · next hfail => simpa [@eq_comm _ VerifierStatus.error, or_assoc] using hfail
  · next hfail =>
    have hnot : ∀ b : Bool, (if b then Overall.warn else .pass) ≠ .fail := by decide
    refine iff_of_false (hnot _) ?_
    simpa [@eq_comm _ VerifierStatus.error, or_assoc] using hfail

theorem SignalMap.mem_notApplicable {map : SignalMap} {policy : VerifierPolicy}
    {slot : VerifierSlot} :
    slot ∈ map.notApplicable (some policy) ↔
      (slot ∈ policy.required → slot ∈ policy.advisory) ∧ map.has (slotToSignal slot) = false := by
  have hmem : slot ∈ [VerifierSlot.lint, .types, .security, .graph, .imports] := by
    cases slot <;> decide
  simp only [notApplicable, List.mem_append, List.mem_filter, hmem, Bool.and_eq_true,
    decide_eq_true_eq, Bool.not_eq_true', true_and]
  tauto

/-- The status of a slot is an error when its event has none, or says so. -/
theorem SignalMap.status_eq_error_iff {o : Option (Option VerifierStatus)} {nac : Bool}
    (hnac : nac = true ↔ o = none) :
    o.join.getD (defaultStatus nac) = .error ↔ o = some none ∨ o = some (some .error) := by
  cases o with
  | none => simp [hnac.mpr rfl, defaultStatus]
  | some o =>
    have hpresent : nac = false := by simpa using hnac
    cases o <;> simp [hpresent, defaultStatus]

theorem SignalMap.graphPolicy_eq_required_iff {policy : VerifierPolicy} :
    graphPolicy (some policy) = .required ↔ .graph ∈ policy.required := by
  simp only [graphPolicy, slotPolicy]
  split
  · next hg => exact iff_of_true rfl hg
  · next hg => refine iff_of_false ?_ hg; split <;> nofun

namespace Represents

variable {r : StateReducer} {h : List ReducerSignal} {t : String}

theorem blockedS (H : Represents r h) {v : ArtifactBlockedValue} :
    (r.signalsOf t).blockedS = some v ↔
      lastSignal h t .artifactBlocked = some (.artifactBlocked v) := by
  rw [SignalMap.blockedS, H.get]
  split
  · next hv => rw [hv]; simp
  · next hv => exact iff_of_false (by rintro ⟨⟩) (hv v)

theorem unterminatedS (H : Represents r h) :
    (r.signalsOf t).unterminatedS.isSome = true ↔ lastSignal h t .artifactUnterminated ≠ none := by
  rw [SignalMap.unterminatedS, H.get]
  cases hv : lastSignal h t .artifactUnterminated with
  | none => simp
  | some w => have hk := lastSignal_kind hv; cases w <;> simp [SignalValue.kind] at hk ⊢

theorem truncatedS (H : Represents r h) :
    (r.signalsOf t).truncatedS.isSome = true ↔ lastSignal h t .artifactTruncated ≠ none := by
  rw [SignalMap.truncatedS, H.get]
  cases hv : lastSignal h t .artifactTruncated with
  | none => simp
  | some w => have hk := lastSignal_kind hv; cases w <;> simp [SignalValue.kind] at hk ⊢

theorem artifactEnforcement_isSome (H : Represents r h) :
    (r.signalsOf t).artifactEnforcement.isSome = true ↔
      (∃ v, lastSignal h t .artifactBlocked = some (.artifactBlocked v) ∧ v.blockedPaths ≠ []) ∨
      lastSignal h t .artifactUnterminated ≠ none ∨
      lastSignal h t .artifactTruncated ≠ none := by
  have hblocked : (r.signalsOf t).blockedPaths ≠ [] ↔
      ∃ v, lastSignal h t .artifactBlocked = some (.artifactBlocked v) ∧ v.blockedPaths ≠ [] := by
    rw [SignalMap.blockedPaths]
    cases hS : (r.signalsOf t).blockedS with
    | none => simp [← H.blockedS, hS]
    | some v => simp [← H.blockedS, hS]
  rw [SignalMap.artifactEnforcement, ← hblocked, ← H.unterminatedS, ← H.truncatedS]
  split
  · next hc => exact iff_of_true rfl hc
  · next hc => exact iff_of_false nofun hc

/-! ### The verdict on the history -/

/-- Unless a required slot is missing, the slots without an event count as not applicable. -/
theorem mem_notApplicable (H : Represents r h) {policy : VerifierPolicy} {slot : VerifierSlot}
    (hmiss : slot ∈ policy.required → lastStatus h t slot ≠ none) :
    slot ∈ (r.signalsOf t).notApplicable (some policy) ↔ lastStatus h t slot = none := by
  rw [SignalMap.mem_notApplicable, H.has, Option.isSome_eq_false_iff, Option.isNone_iff_eq_none,
    lastStatus, Option.map_eq_none_iff]
  refine and_iff_right_of_imp fun hn hreq => (hmiss hreq ?_).elim
  rw [lastStatus, hn]; rfl

theorem lint_status (H : Represents r h) (nac : Bool) :
    ((r.signalsOf t).lint nac).status =
      (lastStatus h t .lint).join.getD (SignalMap.defaultStatus nac) := by
  rw [lastStatus, slotToSignal, SignalMap.lint, SignalMap.lintS, H.get]
  cases hv : lastSignal h t .verifyLint with
  | none => rfl
  | some w => have hk := lastSignal_kind hv; cases w <;> first | rfl | cases hk

theorem types_status (H : Represents r h) (nac : Bool) :
    ((r.signalsOf t).types nac).status =
      (lastStatus h t .types).join.getD (SignalMap.defaultStatus nac) := by
  rw [lastStatus, slotToSignal, SignalMap.types, SignalMap.typesS, H.get]
  cases hv : lastSignal h t .verifyTypes with
  | none => rfl
  | some w => have hk := lastSignal_kind hv; cases w <;> first | rfl | cases hk

theorem sec_status (H : Represents r h) (nac : Bool) :
    ((r.signalsOf t).sec nac).status =
      (lastStatus h t .security).join.getD (SignalMap.defaultStatus nac) := by
  rw [lastStatus, slotToSignal, SignalMap.sec, SignalMap.secS, H.get]
  cases hv : lastSignal h t .verifySecurity with
  | none => rfl
  | some w => have hk := lastSignal_kind hv; cases w <;> first | rfl | cases hk

theorem graph_status (H : Represents r h) (nac : Bool) :
    ((r.signalsOf t).graph nac).status =
      (lastStatus h t .graph).join.getD (SignalMap.defaultStatus nac) := by
  rw [lastStatus, slotToSignal, SignalMap.graph, SignalMap.graphS, H.get]
  cases hv : lastSignal h t .stateGraph with
  | none => rfl
  | some w => have hk := lastSignal_kind hv; cases w <;> first | rfl | cases hk

theorem missingRequired (H : Represents r h) (policy : VerifierPolicy) :
    (r.signalsOf t).missingRequired policy ≠ [] ↔
      ∃ slot ∈ policy.required, lastStatus h t slot = none := by
  simp [SignalMap.missingRequired, H.get, lastStatus]

theorem skippedRequired (H : Represents r h) (policy : VerifierPolicy) :
    (r.signalsOf t).skippedRequired policy ≠ [] ↔
      ∃ slot ∈ policy.required, lastStatus h t slot = some (some .skipped) := by
  simp [SignalMap.skippedRequired, H.get, lastStatus, Option.bind_eq_some_iff]

theorem lint_errors (H : Represents r h) {nac : Bool} (hnac : nac ↔ lastStatus h t .lint = none) :
    0 < ((r.signalsOf t).lint nac).errors ↔
      ∃ v, lastSignal h t .verifyLint = some (.verifyLint v) ∧ 0 < v.errors := by
  rw [lastStatus, slotToSignal] at hnac
  rw [SignalMap.lint, SignalMap.lintS, H.get]
  cases hv : lastSignal h t .verifyLint with
  | none => simp [hnac.mpr (by rw [hv]; rfl)]
  | some w => have hk := lastSignal_kind hv; cases w <;> simp [SignalValue.kind] at hk ⊢

theorem types_errors (H : Represents r h) {nac : Bool}
    (hnac : nac ↔ lastStatus h t .types = none) :
    0 < ((r.signalsOf t).types nac).errors ↔
      ∃ v, lastSignal h t .verifyTypes = some (.verifyTypes v) ∧ 0 < v.errors := by
  rw [lastStatus, slotToSignal] at hnac
  rw [SignalMap.types, SignalMap.typesS, H.get]
  cases hv : lastSignal h t .verifyTypes with
  | none => simp [hnac.mpr (by rw [hv]; rfl)]
  | some w => have hk := lastSignal_kind hv; cases w <;> simp [SignalValue.kind] at hk ⊢

theorem sec_critical (H : Represents r h) (nac : Bool) :
    0 < ((r.signalsOf t).sec nac).critical ↔
      ∃ v, lastSignal h t .verifySecurity = some (.verifySecurity v) ∧ 0 < v.critical := by
  rw [SignalMap.sec, SignalMap.secS, H.get]
  cases hv : lastSignal h t .verifySecurity with
  | none => simp
  | some w => have hk := lastSignal_kind hv; cases w <;> simp [SignalValue.kind] at hk ⊢

theorem graph_brokenEdges (H : Represents r h) {nac : Bool}
    (hnac : nac ↔ lastStatus h t .graph = none) :
    0 < ((r.signalsOf t).graph nac).brokenEdges ↔
      ∃ v, lastSignal h t .stateGraph = some (.stateGraph v) ∧ v.status ≠ some .skipped ∧
        0 < v.brokenEdges := by
  rw [lastStatus, slotToSignal] at hnac
  rw [SignalMap.graph, SignalMap.graphS, H.get]
  cases hv : lastSignal h t .stateGraph with
  | none => simp [hnac.mpr (by rw [hv]; rfl)]
  | some w =>
    have hk := lastSignal_kind hv
    have hpresent : nac = false := by simpa [hv] using hnac
    cases w <;> simp [SignalValue.kind] at hk
    next v => by_cases hs : v.status = some .skipped <;> simp [hs, hpresent]

end Represents

variable {r : StateReducer} {h : List ReducerSignal} {t : String}

/-- Where every required slot has an event that does not skip it, what the events say decides. -/
theorem failCause_iff_of_present {policy : VerifierPolicy}
    (hmiss : ¬∃ slot ∈ policy.required, lastStatus h t slot = none)
    (hskip : ¬∃ slot ∈ policy.required, lastStatus h t slot = some (some .skipped)) :
    FailCause h t policy ↔
      ((lastStatus h t .lint = some none ∨ lastStatus h t .lint = some (some .error)) ∨
        (lastStatus h t .types = some none ∨ lastStatus h t .types = some (some .error)) ∨
        (lastStatus h t .security = some none ∨ lastStatus h t .security = some (some .error)) ∨
        (lastStatus h t .graph = some none ∨ lastStatus h t .graph = some (some .error))) ∨
      (∃ v, lastSignal h t .verifyTypes = some (.verifyTypes v) ∧ 0 < v.errors) ∨
      (∃ v, lastSignal h t .verifyLint = some (.verifyLint v) ∧ 0 < v.errors) ∨
      (∃ v, lastSignal h t .verifySecurity = some (.verifySecurity v) ∧ 0 < v.critical) ∨
      (.graph ∈ policy.required ∧ ∃ v, lastSignal h t .stateGraph = some (.stateGraph v) ∧
        v.status ≠ some .skipped ∧ 0 < v.brokenEdges) ∨
      (∃ v, lastSignal h t .artifactBlocked = some (.artifactBlocked v) ∧ v.blockedPaths ≠ []) ∨
      lastSignal h t .artifactUnterminated ≠ none ∨ lastSignal h t .artifactTruncated ≠ none := by
  constructor
  · intro hc
    cases hc with
    | missing hreq hs => exact (hmiss ⟨_, hreq, hs⟩).elim
    | skipped hreq hs => exact (hskip ⟨_, hreq, hs⟩).elim
    | crashed slot hslot hs =>
      refine .inl ?_
      cases slot with
      | imports => exact (hslot rfl).elim
      | lint => exact .inl hs
      | types => exact .inr (.inl hs)
      | security => exact .inr (.inr (.inl hs))
      | graph => exact .inr (.inr (.inr hs))
    | lint hv he => exact .inr (.inr (.inl ⟨_, hv, he⟩))
    | types hv he => exact .inr (.inl ⟨_, hv, he⟩)
    | security hv he => exact .inr (.inr (.inr (.inl ⟨_, hv, he⟩)))
    | graph hreq hv hs he => exact .inr (.inr (.inr (.inr (.inl ⟨hreq, _, hv, hs, he⟩))))
    | blocked hv hp => exact .inr (.inr (.inr (.inr (.inr (.inl ⟨_, hv, hp⟩)))))
    | unterminated hv => exact .inr (.inr (.inr (.inr (.inr (.inr (.inl hv))))))
    | truncated hv => exact .inr (.inr (.inr (.inr (.inr (.inr (.inr hv))))))
  · rintro ((hs | hs | hs | hs) | ⟨v, hv, he⟩ | ⟨v, hv, he⟩ | ⟨v, hv, he⟩ | ⟨hreq, v, hv, hs, he⟩ |
      ⟨v, hv, hp⟩ | hv | hv)
    · exact .crashed .lint nofun hs
    · exact .crashed .types nofun hs
    · exact .crashed .security nofun hs
    · exact .crashed .graph nofun hs
    · exact .types hv he
    · exact .lint hv he
    · exact .security hv he
    · exact .graph hreq hv hs he
    · exact .blocked hv hp
    · exact .unterminated hv
    · exact .truncated hv

theorem overall_eq_fail_iff (H : Represents r h) (turn : Nat) (policy : VerifierPolicy)
    (policyHash : Option String) (now : String) :
    (r.reduce t turn (some policy) policyHash now).verification.overall = .fail ↔
      FailCause h t policy := by
  simp only [StateReducer.reduce, SignalMap.reduce, SignalMap.overall]
  by_cases hmiss : ∃ slot ∈ policy.required, lastStatus h t slot = none
  · obtain ⟨slot, hreq, hs⟩ := hmiss
    refine iff_of_true (if_pos (.inl ?_)) (.missing hreq hs)
    exact (H.missingRequired policy).mpr ⟨slot, hreq, hs⟩
  by_cases hskip : ∃ slot ∈ policy.required, lastStatus h t slot = some (some .skipped)
  · obtain ⟨slot, hreq, hs⟩ := hskip
    refine iff_of_true (if_pos (.inr ?_)) (.skipped hreq hs)
    exact (H.skippedRequired policy).mpr ⟨slot, hreq, hs⟩
  rw [if_neg (by rw [H.missingRequired, H.skippedRequired]; exact not_or.mpr ⟨hmiss, hskip⟩)]
  -- from here on a slot without an event is not applicable, and every other one speaks for itself
  have hna (slot : VerifierSlot) :
      decide (slot ∈ (r.signalsOf t).notApplicable (some policy)) = true ↔
        lastStatus h t slot = none := by
    rw [decide_eq_true_iff]
    exact H.mem_notApplicable fun hreq hs => hmiss ⟨slot, hreq, hs⟩
  rw [failCause_iff_of_present hmiss hskip, slotsOverall_eq_fail_iff, H.lint_status,
    H.types_status, H.sec_status, H.graph_status,
    SignalMap.status_eq_error_iff (hna .lint), SignalMap.status_eq_error_iff (hna .types),
    SignalMap.status_eq_error_iff (hna .security), SignalMap.status_eq_error_iff (hna .graph),
    H.types_errors (hna _), H.lint_errors (hna _), H.sec_critical, H.graph_brokenEdges (hna _),
    SignalMap.graphPolicy_eq_required_iff, H.artifactEnforcement_isSome]

/-! ### Histories with the same last events -/

theorem slotToSignal_ne_artifactEmitted (slot : VerifierSlot) :
    slotToSignal slot ≠ .artifactEmitted := by
  cases slot <;> nofun

section
variable {h' : List ReducerSignal} (hlast : ∀ k ≠ .artifactEmitted,
  lastSignal h t k = lastSignal h' t k)
include hlast

theorem lastStatus_congr (slot : VerifierSlot) : lastStatus h t slot = lastStatus h' t slot := by
  rw [lastStatus, lastStatus, hlast _ (slotToSignal_ne_artifactEmitted slot)]

theorem FailCause.congr {policy : VerifierPolicy} (hc : FailCause h t policy) :
    FailCause h' t policy := by
  have hstatus := lastStatus_congr hlast
  have hsame {k : SignalKind} {o : Option SignalValue} (hv : lastSignal h t k = o)
      (hk : k ≠ .artifactEmitted) : lastSignal h' t k = o := hlast k hk ▸ hv
  cases hc with
  | missing hreq hs => exact .missing hreq (hstatus _ ▸ hs)
  | skipped hreq hs => exact .skipped hreq (hstatus _ ▸ hs)
  | crashed slot hslot hs => exact .crashed slot hslot (hstatus slot ▸ hs)
  | lint hv he => exact .lint (hsame hv nofun) he
  | types hv he => exact .types (hsame hv nofun) he
  | security hv hc => exact .security (hsame hv nofun) hc
  | graph hreq hv hs hb => exact .graph hreq (hsame hv nofun) hs hb
  | blocked hv hp => exact .blocked (hsame hv nofun) hp
  | unterminated hv =>
    exact .unterminated fun hn => hv ((hlast .artifactUnterminated nofun).trans hn)
  | truncated hv => exact .truncated fun hn => hv ((hlast .artifactTruncated nofun).trans hn)

end

/-- A required verifier that did not run, was skipped or crashed. -/
def Unverified (h : List ReducerSignal) (t : String) (policy : VerifierPolicy) : Prop :=
  ∃ slot ∈ policy.required, lastStatus h t slot = none ∨
    lastStatus h t slot = some (some .error) ∨ lastStatus h t slot = some (some .skipped)

theorem failClosed_iff (history : List ReducerSignal) (taskId : String) (turn : Nat)
    (policy : VerifierPolicy) (policyHash : Option String) (now : String) :
    (Unverified history taskId policy →
        ((StateReducer.empty.recordAll history).reduce taskId turn (some policy) policyHash
          now).verification.overall = .fail) ↔
      (.imports ∈ policy.required → lastStatus history taskId .imports = some (some .error) →
        FailCause history taskId policy) := by
  have H : Represents (StateReducer.empty.recordAll history) history :=
    Represents.empty.recordAll history
  rw [overall_eq_fail_iff H]
  constructor
  · intro hclosed hreq hs
    exact hclosed ⟨.imports, hreq, .inr (.inl hs)⟩
  · rintro himp ⟨slot, hreq, hs | hs | hs⟩
    · exact .missing hreq hs
    · cases slot with
      | imports => exact himp hreq hs
      | lint => exact .crashed .lint nofun (.inr hs)
      | types => exact .crashed .types nofun (.inr hs)
      | security => exact .crashed .security nofun (.inr hs)
      | graph => exact .crashed .graph nofun (.inr hs)
    · exact .skipped hreq hs

/-- The events of a clean run in which the import verifier, the only required one, crashed. -/
def crashedImports : List ReducerSignal :=
  [{ taskId := "task", timestamp := "", value := .verifyImports {
      status := some .error, error := some "crash", findings := 0, warnings := 0, info := 0 } }]

theorem crashedImports_passes :
    Unverified crashedImports "task" { required := [.imports], advisory := [] } ∧
      ((StateReducer.empty.recordAll crashedImports).reduce "task" 0
        (some { required := [.imports], advisory := [] }) none "").verification.overall = .pass :=
  ⟨⟨.imports, by decide, .inr (.inl (by decide))⟩, by decide⟩

end KirkForge
