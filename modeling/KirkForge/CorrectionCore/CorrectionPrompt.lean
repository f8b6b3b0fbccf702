import KirkForge.CorrectionCore.Types
import KirkForge.Theory.Text

/-!
# The correction prompt

`correction-core/src/correction-prompt.ts`: the text that tells the model what to correct.
-/

namespace KirkForge

structure ToolNames where
  lint : String
  types : String
  security : String
  deriving DecidableEq, Repr

def toolNames : Option TaskLanguage → ToolNames
  | some .python => {
      lint := "KirkForge Python lint engine"
      types := "pyright"
      security := "KirkForge Python lint engine (safety rules)" }
  | some .typescript | some .javascript => {
      lint := "KirkForge TypeScript lint engine"
      types := "tsc"
      security := "KirkForge TypeScript lint engine (safety rules)" }
  | some .shell => {
      lint := "KirkForge shell lint engine"
      types := "bash -n"
      security := "KirkForge shell lint engine (safety rules)" }
  | some .cpp | some .c => {
      lint := "KirkForge C/C++ lint engine"
      types := "gcc/g++ -fsyntax-only"
      security := "KirkForge C/C++ lint engine (safety rules)" }
  | some .rust => {
      lint := "KirkForge Rust lint engine"
      types := "rustc --emit=metadata"
      security := "KirkForge Rust lint engine (safety rules)" }
  | some .go => {
      lint := "KirkForge Go lint engine"
      types := "go vet"
      security := "KirkForge Go lint engine (safety rules)" }
  | some .sql => {
      lint := "KirkForge SQL lint engine"
      types := "database validator"
      security := "KirkForge SQL lint engine (safety rules)" }
  | some .text | none => {
      lint := "lint", types := "type-check", security := "security scanner" }

/-- `L${w.line}: ${w.warning}`; a bare message has neither field. -/
def ParseWarning.render : ParseWarning → String
  | located line warning => "L" ++ toString line ++ ": " ++ warning
  | text _ => "Lundefined: undefined"

def jsonlExample : String :=
  r#"{"type":"file_write","path":"...","sha256":"...","content_b64":"..."}"#

def artifactIssues (packet : ReducedStatePacket) : List String :=
  match packet.artifactEnforcement with
  | some { status := .fail, blockedPaths, parseWarnings, .. } =>
    if blockedPaths ≠ [] then
      let blocked := Text.join "; " (blockedPaths.map fun b => b.path ++ ": " ++ b.reason)
      let warnDetails :=
        if parseWarnings.getD [] ≠ [] then
          " Parse warnings (line numbers): " ++
            Text.join "; " ((parseWarnings.getD []).map ParseWarning.render) ++ "."
        else ""
      ["Artifact policy blocked: " ++ blocked ++ "." ++ warnDetails ++
        " You must emit files using JSONL protocol: " ++ jsonlExample ++
        " with allowed extensions only."]
    else
      ["Artifact enforcement failed: zero files were emitted. You must produce at least one file " ++
        "using the JSONL protocol: " ++ jsonlExample ++ "."]
  | _ => []

def policyIssues (packet : ReducedStatePacket) : List String :=
  match packet.verifierPolicy with
  | none => []
  | some { missingRequired := missing, skippedRequired := skipped, .. } =>
    let listed (label : String) (slots : List VerifierSlot) : List String :=
      if slots ≠ [] then [label ++ ": " ++ Text.join ", " (slots.map (·.name))] else []
    let parts := listed "missing" missing ++ listed "skipped" skipped
    if parts ≠ [] then
      ["Required verifier " ++ Text.join "; " parts ++
        ". These must run and pass for a clean result."]
    else []

def slotIssues (packet : ReducedStatePacket) (tools : ToolNames) : List String :=
  let counted (n : Nat) (before what tool : String) : List String :=
    if n > 0 then
      [before ++ " " ++ toString n ++ " " ++ what ++ ". The orchestrator will re-run " ++ tool ++ "."]
    else []
  counted packet.verification.lint.errors "Fix" "lint errors" tools.lint ++
  counted packet.verification.types.errors "Fix" "type errors" tools.types ++
  counted packet.verification.security.critical "Address" "critical security findings"
    tools.security ++
  counted packet.verification.security.high "Address" "high-severity security findings"
    tools.security

def graphIssues (packet : ReducedStatePacket) : List String :=
  let graphIsAdvisory : Bool :=
    packet.verifierPolicy.any fun p => .graph ∉ p.required && .graph ∈ p.advisory
  if packet.graph.brokenEdges > 0 then
    if graphIsAdvisory then
      ["Graph advisory finding: " ++ toString packet.graph.brokenEdges ++ " broken import edges."]
    else ["Fix " ++ toString packet.graph.brokenEdges ++ " broken import edges."]
  else []

def buildCorrectionPrompt (packet : ReducedStatePacket) (language : Option TaskLanguage) :
    String :=
  let found := artifactIssues packet ++ policyIssues packet ++
    slotIssues packet (toolNames language) ++ graphIssues packet
  let issues :=
    if found = [] ∧ packet.verification.overall = .fail then
      ["Verification failed with no specific error details. Your output may have produced no " ++
        "usable files or violated protocol requirements. Ensure you emit at least one valid file " ++
        "using the correct protocol for this delegation mode."]
    else found
  let paths := Text.join ", " packet.changes.paths
  Text.join "\n" (
    ["Your previous output didn't pass verification. Make targeted fixes only -- do not rewrite " ++
        "the file.",
      ""] ++
    issues ++
    ["",
      "Files you changed: " ++ (if paths ≠ "" then paths else "unknown"),
      "",
      "Output the corrected version of just those files. Verification battery will re-run."])

end KirkForge
