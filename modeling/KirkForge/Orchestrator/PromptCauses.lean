import KirkForge.CorrectionCore.CorrectionPrompt
import KirkForge.Orchestrator.FailClosed

/-!
# What a correction prompt names

The verdict of a packet and the issues of its correction prompt are two case analyses over the same
fields. `causes` lists what makes the verdict what it is (`overall_reduce` shows that it does), and
`names` says which of these causes an issue speaks of. The prompt has no issue for a stream that was
not ended, for a verifier that crashed and for lint warnings.
-/

namespace KirkForge

/-- What makes the verdict of a packet `fail` or `warn`. -/
inductive VerdictCause
  | blockedPath (path : BlockedPath)
  | parseWarning (warning : ParseWarning)
  | unterminated
  | truncated
  | missing (slot : VerifierSlot)
  | skipped (slot : VerifierSlot)
  | verifierError (slot : VerifierSlot)
  | lintErrors (n : Nat)
  | typeErrors (n : Nat)
  | critical (n : Nat)
  | brokenEdges (n : Nat)
  | lintWarnings (n : Nat)
  | high (n : Nat)
  | advisoryEdges (n : Nat)
  deriving DecidableEq, Repr

/-- What an issue of the prompt is about. -/
inductive PromptIssue
  | blocked (paths : List BlockedPath) (warnings : List ParseWarning)
  | zeroFiles
  | requiredVerifier (missing skipped : List VerifierSlot)
  | lintErrors (n : Nat)
  | typeErrors (n : Nat)
  | critical (n : Nat)
  | high (n : Nat)
  | brokenEdges (n : Nat) (graphIsAdvisory : Bool)
  | noDetails
  deriving DecidableEq, Repr

namespace ReducedStatePacket

variable (packet : ReducedStatePacket)

def graphPolicy : SlotPolicy :=
  match packet.verifierPolicy with
  | none => .required
  | some policy => slotPolicy policy.required policy.advisory .graph

/-- The causes that an artifact stream can give. -/
def enforcementCauses (e : ArtifactEnforcement) : List VerdictCause :=
  e.blockedPaths.map .blockedPath ++
  (if e.blockedPaths ≠ [] then (e.parseWarnings.getD []).map .parseWarning else []) ++
  (if e.unterminated = some true then [.unterminated] else []) ++
  (if e.truncated = some true then [.truncated] else [])

/-- A count above zero is a cause. -/
def counted (cause : Nat → VerdictCause) (n : Nat) : List VerdictCause :=
  if n > 0 then [cause n] else []

def slotStatuses : List (VerifierSlot × VerifierStatus) :=
  [(.lint, packet.verification.lint.status), (.types, packet.verification.types.status),
    (.security, packet.verification.security.status), (.graph, packet.graph.status)]

def failCauses : List VerdictCause :=
  packet.artifactEnforcement.toList.flatMap enforcementCauses ++
  packet.verifierPolicy.toList.flatMap (fun policy =>
    policy.missingRequired.map .missing ++ policy.skippedRequired.map .skipped) ++
  (packet.slotStatuses.filter fun s => s.2 = .error).map (fun s => .verifierError s.1) ++
  counted .lintErrors packet.verification.lint.errors ++
  counted .typeErrors packet.verification.types.errors ++
  counted .critical packet.verification.security.critical ++
  (if packet.graphPolicy = .required then counted .brokenEdges packet.graph.brokenEdges else [])

def warnCauses : List VerdictCause :=
  counted .lintWarnings packet.verification.lint.warnings ++
  counted .high packet.verification.security.high ++
  (if packet.graphPolicy = .advisory then counted .advisoryEdges packet.graph.brokenEdges else [])

/-- What makes the verdict what it is. -/
def causes : List VerdictCause :=
  match packet.verification.overall with
  | .pass => []
  | .warn => packet.warnCauses
  | .fail => packet.failCauses

/-! ### The issues of a prompt -/

def countedIssue (issue : Nat → PromptIssue) (n : Nat) : List PromptIssue :=
  if n > 0 then [issue n] else []

def enforcementIssues : List PromptIssue :=
  match packet.artifactEnforcement with
  | some { status := .fail, blockedPaths, parseWarnings, .. } =>
    if blockedPaths ≠ [] then [.blocked blockedPaths (parseWarnings.getD [])] else [.zeroFiles]
  | _ => []

def requiredIssues : List PromptIssue :=
  match packet.verifierPolicy with
  | none => []
  | some { missingRequired := missing, skippedRequired := skipped, .. } =>
    if missing ≠ [] ∨ skipped ≠ [] then [.requiredVerifier missing skipped] else []

def foundIssues : List PromptIssue :=
  packet.enforcementIssues ++ packet.requiredIssues ++
  countedIssue .lintErrors packet.verification.lint.errors ++
  countedIssue .typeErrors packet.verification.types.errors ++
  countedIssue .critical packet.verification.security.critical ++
  countedIssue .high packet.verification.security.high ++
  countedIssue (.brokenEdges · (packet.verifierPolicy.any fun p =>
    .graph ∉ p.required && .graph ∈ p.advisory)) packet.graph.brokenEdges

def issues : List PromptIssue :=
  if packet.foundIssues = [] ∧ packet.verification.overall = .fail then [.noDetails]
  else packet.foundIssues

end ReducedStatePacket

namespace PromptIssue

def zeroFilesText : String :=
  "Artifact enforcement failed: zero files were emitted. You must produce at least one file " ++
    "using the JSONL protocol: " ++ jsonlExample ++ "."

def blockedText (paths : List BlockedPath) (warnings : List ParseWarning) : String :=
  "Artifact policy blocked: " ++ Text.join "; " (paths.map fun b => b.path ++ ": " ++ b.reason) ++
    "." ++
    (if warnings ≠ [] then
      " Parse warnings (line numbers): " ++ Text.join "; " (warnings.map ParseWarning.render) ++ "."
    else "") ++
    " You must emit files using JSONL protocol: " ++ jsonlExample ++ " with allowed extensions only."

def requiredText (missing skipped : List VerifierSlot) : String :=
  let listed (label : String) (slots : List VerifierSlot) : List String :=
    if slots ≠ [] then [label ++ ": " ++ Text.join ", " (slots.map (·.name))] else []
  "Required verifier " ++ Text.join "; " (listed "missing" missing ++ listed "skipped" skipped) ++
    ". These must run and pass for a clean result."

def noDetailsText : String :=
  "Verification failed with no specific error details. Your output may have produced no " ++
    "usable files or violated protocol requirements. Ensure you emit at least one valid file " ++
    "using the correct protocol for this delegation mode."

def countedText (before : String) (n : Nat) (what tool : String) : String :=
  before ++ " " ++ toString n ++ " " ++ what ++ ". The orchestrator will re-run " ++ tool ++ "."

def text (tools : ToolNames) : PromptIssue → String
  | blocked paths warnings => blockedText paths warnings
  | zeroFiles => zeroFilesText
  | requiredVerifier missing skipped => requiredText missing skipped
  | lintErrors n => countedText "Fix" n "lint errors" tools.lint
  | typeErrors n => countedText "Fix" n "type errors" tools.types
  | critical n => countedText "Address" n "critical security findings" tools.security
  | high n => countedText "Address" n "high-severity security findings" tools.security
  | brokenEdges n graphIsAdvisory =>
    if graphIsAdvisory then "Graph advisory finding: " ++ toString n ++ " broken import edges."
    else "Fix " ++ toString n ++ " broken import edges."
  | noDetails => noDetailsText

/-- The issue speaks of the cause. A parse warning without a line is written as
`Lundefined: undefined`. -/
def names : PromptIssue → VerdictCause → Bool
  | blocked paths _, .blockedPath b => b ∈ paths
  | blocked _ warnings, .parseWarning w => w ∈ warnings && (w matches .located ..)
  | requiredVerifier missing _, .missing slot => slot ∈ missing
  | requiredVerifier _ skipped, .skipped slot => slot ∈ skipped
  | lintErrors n, .lintErrors m => n = m
  | typeErrors n, .typeErrors m => n = m
  | critical n, .critical m => n = m
  | high n, .high m => n = m
  | brokenEdges n graphIsAdvisory, .brokenEdges m => n = m && !graphIsAdvisory
  | brokenEdges n graphIsAdvisory, .advisoryEdges m => n = m && graphIsAdvisory
  | _, _ => false

end PromptIssue

/-- What the text of an issue that names the cause has of it. -/
def VerdictCause.text : VerdictCause → String
  | blockedPath b => b.path ++ ": " ++ b.reason
  | parseWarning w => w.render
  | unterminated => "unterminated"
  | truncated => "truncated"
  | missing slot | skipped slot | verifierError slot => slot.name
  | lintErrors n => toString n ++ " " ++ "lint errors"
  | typeErrors n => toString n ++ " " ++ "type errors"
  | critical n => toString n ++ " " ++ "critical security findings"
  | brokenEdges n | advisoryEdges n => toString n ++ " broken import edges"
  | lintWarnings n => toString n ++ " lint warnings"
  | high n => toString n ++ " " ++ "high-severity security findings"

namespace ReducedStatePacket

/-- There is an issue, every cause is named by one, and zero files are stated only where none were
emitted. -/
structure NamesCauses (packet : ReducedStatePacket) : Prop where
  issue : packet.issues ≠ []
  causes : ∀ cause ∈ packet.causes, ∃ issue ∈ packet.issues, issue.names cause = true
  zeroFiles : .zeroFiles ∈ packet.issues → ∀ e ∈ packet.emissions, e.filesWritten = 0

/-- The stream was ended, the parse warnings of a blocked one have lines, no verifier crashed, and
no lint warnings make the verdict. -/
structure Nameable (packet : ReducedStatePacket) : Prop where
  ended : ∀ e ∈ packet.artifactEnforcement, e.unterminated ≠ some true ∧ e.truncated ≠ some true
  located : ∀ e ∈ packet.artifactEnforcement, e.blockedPaths ≠ [] →
    ∀ w ∈ e.parseWarnings.getD [], w matches .located ..
  statuses : ∀ s ∈ packet.slotStatuses, s.2 ≠ .error
  warnings : packet.verification.overall = .warn → packet.verification.lint.warnings = 0

/-! ### The text of the prompt -/

theorem texts_enforcementIssues (packet : ReducedStatePacket) (tools : ToolNames) :
    artifactIssues packet = packet.enforcementIssues.map (·.text tools) := by
  cases h : packet.artifactEnforcement with
  | none => simp only [artifactIssues, enforcementIssues, h, List.map_nil]
  | some e =>
    obtain ⟨_, paths, _, status, _, _, _, _, _, _⟩ := e
    cases status with
    | pass => simp only [artifactIssues, enforcementIssues, h, List.map_nil]
    | fail =>
      simp only [artifactIssues, enforcementIssues, h]
      split <;> rfl

theorem texts_requiredIssues (packet : ReducedStatePacket) (tools : ToolNames) :
    policyIssues packet = packet.requiredIssues.map (·.text tools) := by
  cases h : packet.verifierPolicy with
  | none => simp only [policyIssues, requiredIssues, h, List.map_nil]
  | some p =>
    obtain ⟨_, _, missing, skipped⟩ := p
    have hparts : (if missing ≠ [] then ["missing" ++ ": " ++ Text.join ", " (missing.map (·.name))]
        else []) ++ (if skipped ≠ [] then ["skipped" ++ ": " ++ Text.join ", " (skipped.map (·.name))]
          else []) ≠ [] ↔ missing ≠ [] ∨ skipped ≠ [] := by
      by_cases hm : missing = [] <;> by_cases hs : skipped = [] <;> simp [hm, hs]
    simp only [policyIssues, requiredIssues, h]
    by_cases hany : missing ≠ [] ∨ skipped ≠ []
    · rw [if_pos hany, if_pos (hparts.mpr hany)]
      rfl
    · rw [if_neg hany, if_neg (mt hparts.mp hany)]
      rfl

theorem texts_countedIssue (issue : Nat → PromptIssue) (n : Nat) (tools : ToolNames) :
    (countedIssue issue n).map (·.text tools) = if n > 0 then [(issue n).text tools] else [] := by
  rw [countedIssue]
  split
  · rw [List.map_singleton]
  · rw [List.map_nil]

theorem texts_foundIssues (packet : ReducedStatePacket) (tools : ToolNames) :
    packet.foundIssues.map (·.text tools) = artifactIssues packet ++ policyIssues packet ++
      slotIssues packet tools ++ graphIssues packet := by
  have hgraph : graphIssues packet = (countedIssue (.brokenEdges · (packet.verifierPolicy.any fun p =>
      .graph ∉ p.required && .graph ∈ p.advisory)) packet.graph.brokenEdges).map (·.text tools) := by
    rw [texts_countedIssue, graphIssues]
    split
    · simp only [PromptIssue.text]
      split <;> rfl
    · rfl
  have hslots : slotIssues packet tools =
      (countedIssue .lintErrors packet.verification.lint.errors).map (·.text tools) ++
        (countedIssue .typeErrors packet.verification.types.errors).map (·.text tools) ++
        (countedIssue .critical packet.verification.security.critical).map (·.text tools) ++
        (countedIssue .high packet.verification.security.high).map (·.text tools) := by
    simp only [texts_countedIssue]
    rfl
  rw [foundIssues, texts_enforcementIssues packet tools, texts_requiredIssues packet tools, hgraph,
    hslots]
  simp only [List.map_append, List.append_assoc]

/-- The prompt lists the texts of the issues. -/
theorem buildCorrectionPrompt_eq (packet : ReducedStatePacket) (language : Option TaskLanguage) :
    ∃ before after : List String, buildCorrectionPrompt packet language = Text.join "\n"
      (before ++ packet.issues.map (·.text (toolNames language)) ++ after) := by
  have hissues : (if artifactIssues packet ++ policyIssues packet ++
      slotIssues packet (toolNames language) ++ graphIssues packet = [] ∧
        packet.verification.overall = .fail then [PromptIssue.noDetailsText]
      else artifactIssues packet ++ policyIssues packet ++
        slotIssues packet (toolNames language) ++ graphIssues packet) =
      packet.issues.map (·.text (toolNames language)) := by
    rw [issues, ← texts_foundIssues]
    by_cases hnone : packet.foundIssues = [] ∧ packet.verification.overall = .fail
    · rw [if_pos hnone, if_pos (by simpa using hnone)]
      rfl
    · rw [if_neg hnone, if_neg (by simpa using hnone)]
  exact ⟨_, _, congrArg (fun texts => Text.join "\n" (_ ++ texts ++ _)) hissues⟩

end ReducedStatePacket

theorem includes_append_left {s p : String} (h : Text.includes s p = true) (t : String) :
    Text.includes (s ++ t) p = true := by
  rw [Text.includes, decide_eq_true_iff, String.toList_append]
  exact (of_decide_eq_true h).trans (List.prefix_append _ _).isInfix

theorem includes_append_right {s p : String} (h : Text.includes s p = true) (t : String) :
    Text.includes (t ++ s) p = true := by
  rw [Text.includes, decide_eq_true_iff, String.toList_append]
  exact (of_decide_eq_true h).trans (List.suffix_append _ _).isInfix

theorem includes_self (s : String) : Text.includes s s = true :=
  decide_eq_true List.infix_rfl

/-- A joined text includes what one of its parts includes. -/
theorem includes_join (sep : String) {s p : String} {texts : List String} (hs : s ∈ texts)
    (h : Text.includes s p = true) : Text.includes (Text.join sep texts) p = true := by
  induction texts with
  | nil => cases hs
  | cons t texts ih =>
    have hjoin : Text.join sep (t :: texts) =
        t ++ (if texts = [] then "" else sep ++ Text.join sep texts) := by
      rw [← String.toList_inj, Text.join, Text.join]
      cases texts with
      | nil => simp
      | cons u texts => simp [String.toList_intercalate]
    rw [hjoin]
    rcases List.mem_cons.mp hs with rfl | hs
    · exact includes_append_left h _
    · rw [if_neg (List.ne_nil_of_mem hs)]
      exact includes_append_right (includes_append_right (ih hs) sep) t

/-- An issue has the text of the causes that it names. -/
theorem PromptIssue.includes_text {issue : PromptIssue} {cause : VerdictCause} (tools : ToolNames)
    (h : issue.names cause = true) : Text.includes (issue.text tools) cause.text = true := by
  have hcounted (before what tool : String) (n : Nat) :
      Text.includes (countedText before n what tool) (toString n ++ " " ++ what) = true := by
    have heq : countedText before n what tool = before ++ " " ++ (toString n ++ " " ++ what) ++
        ". The orchestrator will re-run " ++ tool ++ "." := by
      simp only [countedText, String.append_assoc]
    rw [heq]
    refine includes_append_left (includes_append_left (includes_append_left ?_ _) _) _
    exact includes_append_right (includes_self _) _
  have hslots {slots : List VerifierSlot} {slot : VerifierSlot} (hslot : slot ∈ slots)
      (label : String) : Text.includes (label ++ ": " ++ Text.join ", " (slots.map (·.name)))
        slot.name = true :=
    includes_append_right (includes_join ", " (List.mem_map_of_mem hslot) (includes_self _)) _
  have hrequired {text : String} {slot : VerifierSlot} {missing skipped : List VerifierSlot}
      (htext : Text.includes text slot.name = true)
      (hmem : text ∈ (if missing ≠ [] then
          ["missing" ++ ": " ++ Text.join ", " (missing.map (·.name))] else []) ++
        if skipped ≠ [] then ["skipped" ++ ": " ++ Text.join ", " (skipped.map (·.name))] else []) :
      Text.includes (requiredText missing skipped) slot.name = true :=
    includes_append_left (includes_append_right (includes_join "; " hmem htext) _) _
  cases issue with
  | blocked paths warnings =>
    cases cause with
    | blockedPath b =>
      have hb : b ∈ paths := of_decide_eq_true h
      have hjoin := includes_join "; " (List.mem_map_of_mem
        (f := fun b : BlockedPath => b.path ++ ": " ++ b.reason) hb) (includes_self _)
      refine includes_append_left (includes_append_left (includes_append_left ?_ _) _) _
      refine includes_append_left (includes_append_left ?_ _) _
      exact includes_append_right hjoin _
    | parseWarning w =>
      have hw : w ∈ warnings := of_decide_eq_true (Bool.and_eq_true_iff.mp h).1
      have hjoin := includes_join "; " (List.mem_map_of_mem
        (f := ParseWarning.render) hw) (includes_self _)
      refine includes_append_left (includes_append_left (includes_append_left ?_ _) _) _
      refine includes_append_right ?_ _
      rw [if_pos (List.ne_nil_of_mem hw)]
      exact includes_append_left (includes_append_right hjoin _) _
    | _ => cases h
  | requiredVerifier missing skipped =>
    cases cause with
    | missing slot =>
      have hslot : slot ∈ missing := of_decide_eq_true h
      refine hrequired (hslots hslot "missing") (List.mem_append_left _ ?_)
      rw [if_pos (List.ne_nil_of_mem hslot)]
      exact List.mem_singleton_self _
    | skipped slot =>
      have hslot : slot ∈ skipped := of_decide_eq_true h
      refine hrequired (hslots hslot "skipped") (List.mem_append_right _ ?_)
      rw [if_pos (List.ne_nil_of_mem hslot)]
      exact List.mem_singleton_self _
    | _ => cases h
  | brokenEdges n graphIsAdvisory =>
    have hedges (before : String) : Text.includes
        (before ++ toString n ++ " broken import edges.") (toString n ++ " broken import edges") =
          true := by
      have heq : before ++ toString n ++ " broken import edges." =
          before ++ (toString n ++ " broken import edges") ++ "." := by
        simp only [String.append_assoc]
        rfl
      rw [heq]
      exact includes_append_left (includes_append_right (includes_self _) _) _
    have htext : Text.includes ((PromptIssue.brokenEdges n graphIsAdvisory).text tools)
        (toString n ++ " broken import edges") = true := by
      rw [text]
      split
      · exact hedges _
      · exact hedges _
    cases cause with
    | brokenEdges m | advisoryEdges m =>
      obtain rfl : n = m := of_decide_eq_true (Bool.and_eq_true_iff.mp h).1
      exact htext
    | _ => cases h
  | zeroFiles | noDetails => cases cause <;> cases h
  | lintErrors n =>
    cases cause with
    | lintErrors m =>
      obtain rfl : n = m := of_decide_eq_true h
      exact hcounted ..
    | _ => cases h
  | typeErrors n =>
    cases cause with
    | typeErrors m =>
      obtain rfl : n = m := of_decide_eq_true h
      exact hcounted ..
    | _ => cases h
  | critical n =>
    cases cause with
    | critical m =>
      obtain rfl : n = m := of_decide_eq_true h
      exact hcounted ..
    | _ => cases h
  | high n =>
    cases cause with
    | high m =>
      obtain rfl : n = m := of_decide_eq_true h
      exact hcounted ..
    | _ => cases h

namespace ReducedStatePacket

/-- The prompt has the text of each cause that an issue names. -/
theorem includes_prompt {packet : ReducedStatePacket} {cause : VerdictCause}
    (language : Option TaskLanguage)
    (h : ∃ issue ∈ packet.issues, issue.names cause = true) :
    Text.includes (buildCorrectionPrompt packet language) cause.text = true := by
  obtain ⟨issue, hissue, hnames⟩ := h
  obtain ⟨before, after, hprompt⟩ := buildCorrectionPrompt_eq packet language
  rw [hprompt]
  refine includes_join "\n" (List.mem_append_left _ (List.mem_append_right _ ?_))
    (PromptIssue.includes_text (toolNames language) hnames)
  exact List.mem_map_of_mem hissue

/-! ### The causes of a verdict -/

theorem counted_eq_nil {cause : Nat → VerdictCause} {n : Nat} : counted cause n = [] ↔ n = 0 := by
  rw [counted]
  split
  · next hn => exact iff_of_false (List.cons_ne_nil _ _) (Nat.ne_of_gt hn)
  · next hn => exact iff_of_true rfl (Nat.eq_zero_of_not_pos hn)

theorem verifierErrors_eq_nil {packet : ReducedStatePacket} :
    (packet.slotStatuses.filter fun s => s.2 = .error).map (fun s => VerdictCause.verifierError s.1) =
        [] ↔ packet.verification.lint.status ≠ .error ∧ packet.verification.types.status ≠ .error ∧
      packet.verification.security.status ≠ .error ∧ packet.graph.status ≠ .error := by
  rw [List.map_eq_nil_iff, List.filter_eq_nil_iff]
  simp [slotStatuses]

end ReducedStatePacket

namespace SignalMap

variable (map : SignalMap) (taskId : String) (turn : Nat) (policy : Option VerifierPolicy)
  (policyHash : Option String) (now : String)

theorem enforcement_reduce {e : ArtifactEnforcement}
    (h : e ∈ (map.reduce taskId turn policy policyHash now).artifactEnforcement) :
    e.status = .fail ∧
      (e.blockedPaths ≠ [] ∨ e.unterminated = some true ∨ e.truncated = some true) := by
  have h : map.artifactEnforcement = some e := h
  rw [artifactEnforcement] at h
  split at h
  · next hany =>
    cases h
    refine ⟨rfl, hany.imp_right ?_⟩
    rw [Option.isSome_iff_exists, Option.isSome_iff_exists]
    rintro (⟨v, hv⟩ | ⟨v, hv⟩)
    · exact .inl (congrArg (Option.map _) hv)
    · exact .inr (congrArg (Option.map _) hv)
  · cases h

theorem graphPolicy_reduce :
    (map.reduce taskId turn policy policyHash now).graphPolicy = graphPolicy policy := by
  cases policy <;> rfl

theorem enforcementCauses_eq_nil {e : ArtifactEnforcement} :
    ReducedStatePacket.enforcementCauses e = [] ↔
      e.blockedPaths = [] ∧ e.unterminated ≠ some true ∧ e.truncated ≠ some true := by
  simp only [ReducedStatePacket.enforcementCauses, List.append_eq_nil_iff, List.map_eq_nil_iff]
  constructor
  · rintro ⟨⟨⟨hpaths, -⟩, hunterminated⟩, htruncated⟩
    exact ⟨hpaths, fun h => by simp [h] at hunterminated, fun h => by simp [h] at htruncated⟩
  · rintro ⟨hpaths, hunterminated, htruncated⟩
    simp [hpaths, hunterminated, htruncated]

theorem failCauses_reduce :
    (map.reduce taskId turn policy policyHash now).failCauses = [] ↔
      slotsOverall (map.lint (.lint ∈ map.notApplicable policy))
          (map.types (.types ∈ map.notApplicable policy))
          (map.sec (.security ∈ map.notApplicable policy))
          (map.graph (.graph ∈ map.notApplicable policy)) (graphPolicy policy)
          map.artifactEnforcement ≠ .fail ∧
        ∀ p, policy = some p → map.missingRequired p = [] ∧ map.skippedRequired p = [] := by
  have henforcement : (map.reduce taskId turn policy policyHash now).artifactEnforcement.toList.flatMap
      ReducedStatePacket.enforcementCauses = [] ↔ map.artifactEnforcement.isSome = false := by
    change map.artifactEnforcement.toList.flatMap _ = [] ↔ _
    cases he : map.artifactEnforcement with
    | none => simp
    | some e =>
      obtain ⟨-, hany⟩ := enforcement_reduce map taskId turn policy policyHash now he
      refine iff_of_false ?_ (by simp)
      simp only [Option.toList_some, List.flatMap_singleton, enforcementCauses_eq_nil]
      tauto
  have hpolicy : (map.reduce taskId turn policy policyHash now).verifierPolicy.toList.flatMap (fun p =>
      p.missingRequired.map VerdictCause.missing ++ p.skippedRequired.map .skipped) = [] ↔
        ∀ p, policy = some p → map.missingRequired p = [] ∧ map.skippedRequired p = [] := by
    change (policy.map map.verifierPolicyResult).toList.flatMap _ = [] ↔ _
    cases policy with
    | none => simp
    | some p => simp [verifierPolicyResult]
  have hedges : (if graphPolicy policy = .required then
      ReducedStatePacket.counted .brokenEdges
        (map.reduce taskId turn policy policyHash now).graph.brokenEdges else []) = [] ↔
      (graphPolicy policy = .required →
        (map.reduce taskId turn policy policyHash now).graph.brokenEdges = 0) := by
    split
    · next hrequired => simp [hrequired, ReducedStatePacket.counted_eq_nil]
    · next hrequired => simp [hrequired]
  rw [ReducedStatePacket.failCauses, Ne, slotsOverall_eq_fail_iff, graphPolicy_reduce]
  simp only [List.append_eq_nil_iff, henforcement, hpolicy, hedges,
    ReducedStatePacket.verifierErrors_eq_nil, ReducedStatePacket.counted_eq_nil]
  simp only [reduce, Nat.pos_iff_ne_zero, not_or, not_and, Bool.not_eq_true, not_not, Ne]
  tauto

/-- The causes are what makes the verdict. -/
theorem overall_reduce :
    (map.reduce taskId turn policy policyHash now).verification.overall =
      if (map.reduce taskId turn policy policyHash now).failCauses ≠ [] then .fail
      else if (map.reduce taskId turn policy policyHash now).warnCauses ≠ [] then .warn
      else .pass := by
  have hfail := failCauses_reduce map taskId turn policy policyHash now
  have hwarn : (map.reduce taskId turn policy policyHash now).warnCauses = [] ↔
      ¬((0 < (map.lint (.lint ∈ map.notApplicable policy)).warnings ∨
        0 < (map.sec (.security ∈ map.notApplicable policy)).high) ∨
        graphPolicy policy = .advisory ∧
          0 < (map.graph (.graph ∈ map.notApplicable policy)).brokenEdges) := by
    rw [ReducedStatePacket.warnCauses, graphPolicy_reduce]
    have hedges : (if graphPolicy policy = .advisory then
        ReducedStatePacket.counted .advisoryEdges
          (map.reduce taskId turn policy policyHash now).graph.brokenEdges else []) = [] ↔
        (graphPolicy policy = .advisory →
          (map.reduce taskId turn policy policyHash now).graph.brokenEdges = 0) := by
      split
      · next hadvisory => simp [hadvisory, ReducedStatePacket.counted_eq_nil]
      · next hadvisory => simp [hadvisory]
    simp only [List.append_eq_nil_iff, hedges, ReducedStatePacket.counted_eq_nil]
    simp only [reduce, Nat.pos_iff_ne_zero, not_or, not_and, not_not, Ne]
  change map.overall policy (slotsOverall _ _ _ _ _ _) = _
  by_cases hnone : (map.reduce taskId turn policy policyHash now).failCauses = []
  · obtain ⟨hslots, hrequired⟩ := hfail.mp hnone
    have hbase : ∀ base, map.overall policy base = base := by
      intro base
      cases policy with
      | none => rfl
      | some p =>
        obtain ⟨hmissing, hskipped⟩ := hrequired p rfl
        exact if_neg (by simp [hmissing, hskipped])
    rw [hbase, if_neg (not_not.mpr hnone)]
    simp only [slotsOverall] at hslots ⊢
    split
    · next h => exact absurd (if_pos h) hslots
    · refine if_congr ?_ rfl rfl
      rw [Ne, hwarn, not_not]
      simp
  · rw [if_pos hnone]
    by_cases hslots : slotsOverall (map.lint (.lint ∈ map.notApplicable policy))
        (map.types (.types ∈ map.notApplicable policy))
        (map.sec (.security ∈ map.notApplicable policy))
        (map.graph (.graph ∈ map.notApplicable policy)) (graphPolicy policy)
        map.artifactEnforcement = .fail
    · rw [hslots]
      cases policy with
      | none => rfl
      | some p => exact ite_self _
    · have hrequired := mt (fun h => hfail.mpr ⟨hslots, h⟩) hnone
      cases policy with
      | none =>
        refine absurd (fun p hp => ?_) hrequired
        cases hp
      | some p =>
        refine if_pos ?_
        by_contra hno
        rw [not_or, not_not, not_not] at hno
        exact hrequired fun p' hp' => Option.some.inj hp' ▸ hno

end SignalMap

namespace ReducedStatePacket

variable {packet : ReducedStatePacket}

theorem mem_countedIssue {issue : Nat → PromptIssue} {n : Nat} (hn : 0 < n) :
    issue n ∈ countedIssue issue n := by
  rw [countedIssue, if_pos hn]
  exact List.mem_singleton_self _

theorem mem_counted {cause : Nat → VerdictCause} {c : VerdictCause} {n : Nat}
    (h : c ∈ counted cause n) : c = cause n ∧ 0 < n := by
  rw [counted] at h
  split at h
  · next hn => exact ⟨List.mem_singleton.mp h, hn⟩
  · cases h

/-- An issue that is found is in the prompt. -/
theorem foundIssues_subset (packet : ReducedStatePacket) : packet.foundIssues ⊆ packet.issues := by
  rw [issues]
  split
  · next hnone =>
    rw [hnone.1]
    exact List.nil_subset _
  · exact List.Subset.refl _

theorem graphIsAdvisory_eq (packet : ReducedStatePacket) :
    (packet.verifierPolicy.any fun p => .graph ∉ p.required && .graph ∈ p.advisory) =
      decide (packet.graphPolicy = .advisory) := by
  rw [graphPolicy]
  cases packet.verifierPolicy with
  | none => rfl
  | some p =>
    simp only [Option.any_some, slotPolicy]
    by_cases hrequired : .graph ∈ p.required <;> by_cases hadvisory : .graph ∈ p.advisory <;>
      simp [hrequired, hadvisory]

theorem enforcementIssues_eq {e : ArtifactEnforcement} (he : packet.artifactEnforcement = some e)
    (hstatus : e.status = .fail) : packet.enforcementIssues =
      if e.blockedPaths ≠ [] then [.blocked e.blockedPaths (e.parseWarnings.getD [])]
      else [.zeroFiles] := by
  obtain ⟨_, _, _, status, _, _, _, _, _, _⟩ := e
  obtain rfl : status = .fail := hstatus
  rw [enforcementIssues, he]

theorem requiredIssues_eq {policy : VerifierPolicyResult}
    (hpolicy : packet.verifierPolicy = some policy) : packet.requiredIssues =
      if policy.missingRequired ≠ [] ∨ policy.skippedRequired ≠ [] then
        [.requiredVerifier policy.missingRequired policy.skippedRequired] else [] := by
  rw [requiredIssues, hpolicy]

theorem mem_of_mem_countedIssue {issue : Nat → PromptIssue} {i : PromptIssue} {n : Nat}
    (h : i ∈ countedIssue issue n) : i = issue n := by
  rw [countedIssue] at h
  split at h
  · exact List.mem_singleton.mp h
  · cases h

/-- Zero files are only stated of a failed stream without blocked paths. -/
theorem blockedPaths_of_zeroFiles (h : .zeroFiles ∈ packet.issues) :
    ∃ e ∈ packet.artifactEnforcement, e.blockedPaths = [] := by
  have hfound : .zeroFiles ∈ packet.foundIssues := by
    rw [issues] at h
    split at h
    · cases List.mem_singleton.mp h
    · exact h
  simp only [foundIssues, List.mem_append, or_assoc] at hfound
  rcases hfound with h | h | h | h | h | h | h
  · rw [enforcementIssues] at h
    split at h
    · next he =>
      split at h
      · cases List.mem_singleton.mp h
      · next hpaths => exact ⟨_, he, not_not.mp hpaths⟩
    · cases h
  · rw [requiredIssues] at h
    split at h
    · cases h
    · split at h
      · cases List.mem_singleton.mp h
      · cases h
  · cases mem_of_mem_countedIssue h
  · cases mem_of_mem_countedIssue h
  · cases mem_of_mem_countedIssue h
  · cases mem_of_mem_countedIssue h
  · cases mem_of_mem_countedIssue h

/-! ### Which causes are named -/

/-- A cause of the artifact stream has an issue if the stream was ended and its warnings have
lines. -/
theorem exists_enforcementIssue (hn : packet.Nameable) {e : ArtifactEnforcement}
    (he : packet.artifactEnforcement = some e) (hstatus : e.status = .fail) {cause : VerdictCause}
    (hcause : cause ∈ enforcementCauses e) :
    ∃ issue ∈ packet.enforcementIssues, issue.names cause = true := by
  rw [enforcementIssues_eq he hstatus]
  obtain ⟨hunterminated, htruncated⟩ := hn.ended e he
  rw [enforcementCauses, if_neg hunterminated, if_neg htruncated, List.append_nil, List.append_nil,
    List.mem_append] at hcause
  rcases hcause with hpath | hwarning
  · obtain ⟨b, hb, rfl⟩ := List.mem_map.mp hpath
    rw [if_pos (List.ne_nil_of_mem hb)]
    exact ⟨_, List.mem_singleton_self _, decide_eq_true hb⟩
  · split at hwarning
    · next hblocked =>
      obtain ⟨w, hw, rfl⟩ := List.mem_map.mp hwarning
      rw [if_pos hblocked]
      refine ⟨_, List.mem_singleton_self _, Bool.and_eq_true_iff.mpr ⟨decide_eq_true hw, ?_⟩⟩
      exact hn.located e he hblocked w hw
    · cases hwarning

theorem exists_requiredIssue {policy : VerifierPolicyResult}
    (hpolicy : packet.verifierPolicy = some policy) {cause : VerdictCause}
    (hcause : cause ∈ policy.missingRequired.map .missing ++ policy.skippedRequired.map .skipped) :
    ∃ issue ∈ packet.requiredIssues, issue.names cause = true := by
  rw [requiredIssues_eq hpolicy]
  rcases List.mem_append.mp hcause with h | h
  · obtain ⟨slot, hslot, rfl⟩ := List.mem_map.mp h
    rw [if_pos (.inl (List.ne_nil_of_mem hslot))]
    exact ⟨_, List.mem_singleton_self _, decide_eq_true hslot⟩
  · obtain ⟨slot, hslot, rfl⟩ := List.mem_map.mp h
    rw [if_pos (.inr (List.ne_nil_of_mem hslot))]
    exact ⟨_, List.mem_singleton_self _, decide_eq_true hslot⟩

theorem exists_foundIssue_of_failCause (hn : packet.Nameable)
    (hstatus : ∀ e ∈ packet.artifactEnforcement, e.status = .fail) {cause : VerdictCause}
    (hcause : cause ∈ packet.failCauses) :
    ∃ issue ∈ packet.foundIssues, issue.names cause = true := by
  simp only [failCauses, foundIssues, List.mem_append, or_assoc] at hcause ⊢
  rcases hcause with h | h | h | h | h | h | h
  · obtain ⟨e, he, hcause⟩ := List.mem_flatMap.mp h
    have he := Option.mem_toList.mp he
    obtain ⟨issue, hissue, hnames⟩ := exists_enforcementIssue hn he (hstatus e he) hcause
    exact ⟨issue, .inl hissue, hnames⟩
  · obtain ⟨policy, hpolicy, hcause⟩ := List.mem_flatMap.mp h
    obtain ⟨issue, hissue, hnames⟩ := exists_requiredIssue (Option.mem_toList.mp hpolicy) hcause
    exact ⟨issue, .inr (.inl hissue), hnames⟩
  · obtain ⟨s, hs, -⟩ := List.mem_map.mp h
    obtain ⟨hs, herror⟩ := List.mem_filter.mp hs
    exact absurd (of_decide_eq_true herror) (hn.statuses s hs)
  · obtain ⟨rfl, hpos⟩ := mem_counted h
    exact ⟨_, .inr (.inr (.inl (mem_countedIssue hpos))), decide_eq_true rfl⟩
  · obtain ⟨rfl, hpos⟩ := mem_counted h
    exact ⟨_, .inr (.inr (.inr (.inl (mem_countedIssue hpos)))), decide_eq_true rfl⟩
  · obtain ⟨rfl, hpos⟩ := mem_counted h
    exact ⟨_, .inr (.inr (.inr (.inr (.inl (mem_countedIssue hpos))))), decide_eq_true rfl⟩
  · split at h
    · next hrequired =>
      obtain ⟨rfl, hpos⟩ := mem_counted h
      refine ⟨_, .inr (.inr (.inr (.inr (.inr (.inr (mem_countedIssue hpos)))))), ?_⟩
      rw [graphIsAdvisory_eq, hrequired]
      exact Bool.and_eq_true_iff.mpr ⟨decide_eq_true rfl, rfl⟩
    · cases h

theorem exists_foundIssue_of_warnCause (hwarnings : packet.verification.lint.warnings = 0)
    {cause : VerdictCause} (hcause : cause ∈ packet.warnCauses) :
    ∃ issue ∈ packet.foundIssues, issue.names cause = true := by
  simp only [warnCauses, foundIssues, List.mem_append, or_assoc] at hcause ⊢
  rcases hcause with h | h | h
  · obtain ⟨-, hpos⟩ := mem_counted h
    exact absurd hwarnings (Nat.ne_of_gt hpos)
  · obtain ⟨rfl, hpos⟩ := mem_counted h
    exact ⟨_, .inr (.inr (.inr (.inr (.inr (.inl (mem_countedIssue hpos)))))), decide_eq_true rfl⟩
  · split at h
    · next hadvisory =>
      obtain ⟨rfl, hpos⟩ := mem_counted h
      refine ⟨_, .inr (.inr (.inr (.inr (.inr (.inr (mem_countedIssue hpos)))))), ?_⟩
      rw [graphIsAdvisory_eq, hadvisory]
      exact Bool.and_eq_true_iff.mpr ⟨decide_eq_true rfl, rfl⟩
    · cases h

end ReducedStatePacket

namespace SignalMap

variable {map : SignalMap} {taskId : String} {turn : Nat} {policy : Option VerifierPolicy}
  {policyHash : Option String} {now : String}

theorem mem_causes_of_failCause {cause : VerdictCause}
    (h : cause ∈ (map.reduce taskId turn policy policyHash now).failCauses) :
    cause ∈ (map.reduce taskId turn policy policyHash now).causes := by
  have hoverall := overall_reduce map taskId turn policy policyHash now
  rw [if_pos (List.ne_nil_of_mem h)] at hoverall
  rwa [ReducedStatePacket.causes, hoverall]

/-- Causes without an issue must not be there. -/
theorem nameable_of_namesCauses (h : (map.reduce taskId turn policy policyHash now).NamesCauses) :
    (map.reduce taskId turn policy policyHash now).Nameable := by
  have hnamed {cause : VerdictCause}
      (hcause : cause ∈ (map.reduce taskId turn policy policyHash now).failCauses) :=
    h.causes cause (mem_causes_of_failCause hcause)
  have henforcement {e : ArtifactEnforcement} {cause : VerdictCause}
      (he : e ∈ (map.reduce taskId turn policy policyHash now).artifactEnforcement)
      (hcause : cause ∈ ReducedStatePacket.enforcementCauses e) :
      cause ∈ (map.reduce taskId turn policy policyHash now).failCauses := by
    simp only [ReducedStatePacket.failCauses, List.mem_append, or_assoc]
    exact .inl (List.mem_flatMap.mpr ⟨e, Option.mem_toList.mpr he, hcause⟩)
  refine ⟨fun e he => ⟨fun hunterminated => ?_, fun htruncated => ?_⟩,
    fun e he hblocked w hw => ?_, fun s hs herror => ?_, fun hwarn => ?_⟩
  · have hcause : VerdictCause.unterminated ∈ ReducedStatePacket.enforcementCauses e := by
      simp [ReducedStatePacket.enforcementCauses, hunterminated]
    obtain ⟨issue, -, hnames⟩ := hnamed (henforcement he hcause)
    cases issue <;> cases hnames
  · have hcause : VerdictCause.truncated ∈ ReducedStatePacket.enforcementCauses e := by
      simp [ReducedStatePacket.enforcementCauses, htruncated]
    obtain ⟨issue, -, hnames⟩ := hnamed (henforcement he hcause)
    cases issue <;> cases hnames
  · have hcause : VerdictCause.parseWarning w ∈ ReducedStatePacket.enforcementCauses e := by
      simp [ReducedStatePacket.enforcementCauses, hblocked, hw]
    obtain ⟨issue, -, hnames⟩ := hnamed (henforcement he hcause)
    cases issue with
    | blocked paths warnings => exact (Bool.and_eq_true_iff.mp hnames).2
    | _ => cases hnames
  · have hcause : VerdictCause.verifierError s.1 ∈
        (map.reduce taskId turn policy policyHash now).failCauses := by
      simp only [ReducedStatePacket.failCauses, List.mem_append, or_assoc]
      refine .inr (.inr (.inl (List.mem_map.mpr ⟨s, List.mem_filter.mpr ⟨hs, ?_⟩, rfl⟩)))
      exact decide_eq_true herror
    obtain ⟨issue, -, hnames⟩ := hnamed hcause
    cases issue <;> cases hnames
  · by_contra hpos
    have hcause : VerdictCause.lintWarnings
        (map.reduce taskId turn policy policyHash now).verification.lint.warnings ∈
        (map.reduce taskId turn policy policyHash now).causes := by
      rw [ReducedStatePacket.causes, hwarn, ReducedStatePacket.warnCauses, List.append_assoc,
        ReducedStatePacket.counted, if_pos (Nat.pos_of_ne_zero hpos)]
      exact List.mem_cons_self
    obtain ⟨issue, -, hnames⟩ := h.causes _ hcause
    cases issue <;> cases hnames

theorem namesCauses_of_nameable
    (hpass : (map.reduce taskId turn policy policyHash now).verification.overall ≠ .pass)
    (hn : (map.reduce taskId turn policy policyHash now).Nameable) :
    (map.reduce taskId turn policy policyHash now).NamesCauses := by
  have hstatus (e : ArtifactEnforcement)
      (he : e ∈ (map.reduce taskId turn policy policyHash now).artifactEnforcement) :
      e.status = .fail := (enforcement_reduce map taskId turn policy policyHash now he).1
  have hcauses : ∀ cause ∈ (map.reduce taskId turn policy policyHash now).causes,
      ∃ issue ∈ (map.reduce taskId turn policy policyHash now).foundIssues,
        issue.names cause = true := by
    intro cause hcause
    rw [ReducedStatePacket.causes] at hcause
    split at hcause
    · cases hcause
    · next hwarn => exact ReducedStatePacket.exists_foundIssue_of_warnCause (hn.warnings hwarn) hcause
    · exact ReducedStatePacket.exists_foundIssue_of_failCause hn hstatus hcause
  have hnonempty : (map.reduce taskId turn policy policyHash now).causes ≠ [] := by
    have hoverall := overall_reduce map taskId turn policy policyHash now
    rw [ReducedStatePacket.causes]
    split at hoverall
    · next hfail => rwa [hoverall]
    · split at hoverall
      · next hwarn => rwa [hoverall]
      · exact absurd hoverall hpass
  refine ⟨?_, fun cause hcause => ?_, fun hzero => ?_⟩
  · obtain ⟨cause, hcause⟩ := List.exists_mem_of_ne_nil _ hnonempty
    obtain ⟨issue, hissue, -⟩ := hcauses cause hcause
    exact List.ne_nil_of_mem (ReducedStatePacket.foundIssues_subset _ hissue)
  · obtain ⟨issue, hissue, hnames⟩ := hcauses cause hcause
    exact ⟨issue, ReducedStatePacket.foundIssues_subset _ hissue, hnames⟩
  · obtain ⟨e, he, hpaths⟩ := ReducedStatePacket.blockedPaths_of_zeroFiles hzero
    obtain ⟨hunterminated, htruncated⟩ := hn.ended e he
    obtain ⟨-, h | h | h⟩ := enforcement_reduce map taskId turn policy policyHash now he
    · exact absurd hpaths h
    · exact absurd h hunterminated
    · exact absurd h htruncated

end SignalMap

/-- A verdict that does not pass has all of its causes in the prompt exactly if the stream was
ended, the parse warnings of a blocked one have lines, no verifier crashed and no lint warnings make
the verdict. -/
theorem prompt_names_causes_iff (r : StateReducer) (taskId : String) (turn : Nat)
    (policy : Option VerifierPolicy) (policyHash : Option String) (now : String)
    (language : Option TaskLanguage)
    (hpass : (r.reduce taskId turn policy policyHash now).verification.overall ≠ .pass) :
    ((r.reduce taskId turn policy policyHash now).NamesCauses ↔
        (r.reduce taskId turn policy policyHash now).Nameable) ∧
      ∀ cause, (∃ issue ∈ (r.reduce taskId turn policy policyHash now).issues,
          issue.names cause = true) →
        Text.includes (buildCorrectionPrompt (r.reduce taskId turn policy policyHash now) language)
          cause.text = true :=
  ⟨⟨SignalMap.nameable_of_namesCauses, SignalMap.namesCauses_of_nameable hpass⟩,
    fun _ => ReducedStatePacket.includes_prompt language⟩

/-- Every slot of a policy without verifiers is clean, but for the events given. -/
def onlyEvents (values : List SignalValue) : ReducedStatePacket :=
  (StateReducer.empty.recordAll (values.map fun value => { taskId := "t", value, timestamp := "" })).reduce
    "t" 0 (some { required := [], advisory := [] }) none ""

theorem prompt_names_type_errors : (onlyEvents
      [.verifyTypes { status := some .fail, errors := 2 }]).NamesCauses :=
  (prompt_names_causes_iff _ "t" 0 _ none "" none (by decide)).1.mpr
    ⟨by decide, by decide, by decide, by decide⟩

/-- A stream that was not ended and has emitted a file. -/
def unendedPacket : ReducedStatePacket :=
  onlyEvents [.artifactUnterminated { warnings := [] },
    .artifactEmitted { filesWritten := 1, totalBytes := 1, language := "", files :=
      [{ path := "a", sha256 := "", bytes := 1, beforeHash := none, existed := false }] }]

def warnedPacket : ReducedStatePacket :=
  onlyEvents [.verifyLint { status := some .pass, errors := 0, warnings := 1 }]

/-- The prompt of the one states zero files, and that of the other has no issue. -/
theorem prompt_without_causes :
    (unendedPacket.verification.overall = .fail ∧ unendedPacket.issues = [.zeroFiles] ∧
        unendedPacket.emissions.map (·.filesWritten) = some 1 ∧ ¬unendedPacket.NamesCauses) ∧
      warnedPacket.verification.overall = .warn ∧ warnedPacket.issues = [] ∧
        ¬warnedPacket.NamesCauses := by
  refine ⟨⟨by decide, by decide, by decide, fun h => ?_⟩, by decide, by decide, fun h => ?_⟩
  · have hzero := h.zeroFiles (by decide)
    revert hzero
    decide
  · exact h.issue (by decide)

end KirkForge
