import KirkForge.CorrectionCore.Types
import KirkForge.Theory.OrderedMap
import Mathlib.Algebra.GroupWithZero.Nat

/-!
# The state reducer

`StateReducer` of `orchestrator/src/reducer.ts`: the events of a task are stored by kind, and
`reduce` folds them into a state packet. The local constants of the source function `reduce` are
definitions of their own, under the source's names; the time stamp is an argument.
-/

namespace KirkForge

/-- The signals of one task, by kind. -/
abbrev SignalMap := OrderedMap SignalKind (List ReducerSignal)

structure StateReducer where
  perTask : OrderedMap String SignalMap

def slotToSignal : VerifierSlot → SignalKind
  | .lint => .verifyLint
  | .types => .verifyTypes
  | .security => .verifySecurity
  | .graph => .stateGraph
  | .imports => .verifyImports

/-- The place of a slot in a verifier policy. -/
inductive SlotPolicy
  | required | advisory | absent
  deriving DecidableEq, Repr

def slotPolicy (required advisory : List VerifierSlot) (slot : VerifierSlot) : SlotPolicy :=
  if slot ∈ required then .required else if slot ∈ advisory then .advisory else .absent

namespace StateReducer

def empty : StateReducer := ⟨∅⟩

def store (r : StateReducer) (taskId : String) (kind : SignalKind) (signal : ReducerSignal) :
    StateReducer :=
  let map := (r.perTask.get? taskId).getD ∅
  let arr := (map.get? kind).getD []
  ⟨r.perTask.set taskId (map.set kind (arr ++ [signal]))⟩

/-- The bus handlers of the constructor: every subscribed event is stored under its task. -/
def onSignal (r : StateReducer) (e : ReducerSignal) : StateReducer := r.store e.taskId e.kind e

def recordAll (r : StateReducer) (events : List ReducerSignal) : StateReducer :=
  events.foldl onSignal r

def resetTask (r : StateReducer) (taskId : String) : StateReducer := ⟨r.perTask.delete taskId⟩

def signalsOf (r : StateReducer) (taskId : String) : SignalMap := (r.perTask.get? taskId).getD ∅

end StateReducer

namespace SignalMap

/-- The payload of the last signal of a kind. -/
def get (map : SignalMap) (kind : SignalKind) : Option SignalValue :=
  ((map.get? kind).bind List.getLast?).map (·.value)

def lintS (map : SignalMap) : Option VerifyLintValue :=
  match map.get .verifyLint with
  | some (.verifyLint v) => some v
  | _ => none

def typesS (map : SignalMap) : Option VerifyTypesValue :=
  match map.get .verifyTypes with
  | some (.verifyTypes v) => some v
  | _ => none

def secS (map : SignalMap) : Option VerifySecurityValue :=
  match map.get .verifySecurity with
  | some (.verifySecurity v) => some v
  | _ => none

def importsS (map : SignalMap) : Option VerifyImportsValue :=
  match map.get .verifyImports with
  | some (.verifyImports v) => some v
  | _ => none

def changesS (map : SignalMap) : Option StateChangesValue :=
  match map.get .stateChanges with
  | some (.stateChanges v) => some v
  | _ => none

def graphS (map : SignalMap) : Option StateGraphValue :=
  match map.get .stateGraph with
  | some (.stateGraph v) => some v
  | _ => none

def blockedS (map : SignalMap) : Option ArtifactBlockedValue :=
  match map.get .artifactBlocked with
  | some (.artifactBlocked v) => some v
  | _ => none

def unterminatedS (map : SignalMap) : Option ArtifactUnterminatedValue :=
  match map.get .artifactUnterminated with
  | some (.artifactUnterminated v) => some v
  | _ => none

def truncatedS (map : SignalMap) : Option ArtifactTruncatedValue :=
  match map.get .artifactTruncated with
  | some (.artifactTruncated v) => some v
  | _ => none

/-- The slots that count as skipped, not as failed, when they have no signal. -/
def notApplicable (map : SignalMap) : Option VerifierPolicy → List VerifierSlot
  | none => []
  | some policy =>
    [.lint, .types, .security, .graph, .imports].filter (fun slot =>
      slot ∉ policy.required ++ policy.advisory && !map.has (slotToSignal slot)) ++
    policy.advisory.filter fun slot => !map.has (slotToSignal slot)

/-- A slot's status when its signal has none. -/
def defaultStatus (nac : Bool) : VerifierStatus := if nac then .skipped else .error

def lint (map : SignalMap) (nac : Bool) : LintSlot where
  errors := (map.lintS.map (·.errors)).getD (if nac then 0 else 1)
  warnings := (map.lintS.map (·.warnings)).getD 0
  suppressed := (map.lintS.bind (·.suppressed)).getD 0
  status := (map.lintS.bind (·.status)).getD (defaultStatus nac)
  error := map.lintS.bind (·.error)

def types (map : SignalMap) (nac : Bool) : TypesSlot where
  errors := (map.typesS.map (·.errors)).getD (if nac then 0 else 1)
  status := (map.typesS.bind (·.status)).getD (defaultStatus nac)
  error := map.typesS.bind (·.error)

def sec (map : SignalMap) (nac : Bool) : SecuritySlot where
  findings := (map.secS.map (·.findings)).getD (if nac then 0 else 1)
  critical := (map.secS.map (·.critical)).getD 0
  high := (map.secS.map (·.high)).getD (if nac then 0 else 1)
  status := (map.secS.bind (·.status)).getD (defaultStatus nac)
  error := map.secS.bind (·.error)

def imports (map : SignalMap) (nac : Bool) : ImportsSlot where
  findings := (map.importsS.map (·.findings)).getD 0
  warnings := (map.importsS.map (·.warnings)).getD 0
  info := (map.importsS.map (·.info)).getD 0
  status := (map.importsS.bind (·.status)).getD (defaultStatus nac)
  error := map.importsS.bind (·.error)

def changes (map : SignalMap) : StateChangesValue where
  filesChanged := (map.changesS.map (·.filesChanged)).getD 0
  paths := (map.changesS.map (·.paths)).getD []
  insertions := (map.changesS.map (·.insertions)).getD 0
  deletions := (map.changesS.map (·.deletions)).getD 0

def graph (map : SignalMap) (nac : Bool) : GraphSlot where
  edgeCount := (map.graphS.map (·.edgeCount)).getD 0
  newEdges := (map.graphS.map (·.newEdges)).getD 0
  brokenEdges :=
    if map.graphS.bind (·.status) = some .skipped ∨ nac then 0
    else (map.graphS.map (·.brokenEdges)).getD 1
  cycles := (map.graphS.map (·.cycles)).getD 0
  status := (map.graphS.bind (·.status)).getD (defaultStatus nac)
  error := map.graphS.bind (·.error)

def blockedPaths (map : SignalMap) : List BlockedPath :=
  (map.blockedS.map (·.blockedPaths)).getD []

def parseWarnings (map : SignalMap) : List ParseWarning :=
  (map.blockedS.bind (·.parseWarnings)).getD []

def artifactEnforcement (map : SignalMap) : Option ArtifactEnforcement :=
  if map.blockedPaths ≠ [] ∨ map.unterminatedS.isSome ∨ map.truncatedS.isSome then
    some {
      blocked := map.blockedPaths.length
      blockedPaths := map.blockedPaths
      status := .fail
      parseWarnings := if map.parseWarnings ≠ [] then some map.parseWarnings else none
      unterminated := map.unterminatedS.map fun _ => true
      unterminatedWarnings := map.unterminatedS.map (·.warnings)
      truncated := map.truncatedS.map fun _ => true
      truncatedFinishReason := map.truncatedS.map (·.finishReason)
      truncatedWarnings := map.truncatedS.map (·.warnings) }
  else none

/-- The files of one `artifact.emitted` signal. -/
def emittedFiles (s : ReducerSignal) : List EmittedFile :=
  match s.value with
  | .artifactEmitted v => v.files
  | _ => []

def emissions (map : SignalMap) : Option Emissions :=
  match map.get? .artifactEmitted with
  | none | some [] => none
  | some allEmitted =>
    let allFiles := allEmitted.flatMap emittedFiles
    some {
      filesWritten := allFiles.length
      totalBytes := (allFiles.map (·.bytes)).sum
      files := allFiles }

def contributingSignals (map : SignalMap) : List ContributingSignal :=
  map.entries.flatMap fun (kind, signals) =>
    signals.map fun s => { kind := kind.name, ts := s.timestamp, source := s.source }

def missingRequired (map : SignalMap) (policy : VerifierPolicy) : List VerifierSlot :=
  policy.required.filter fun slot => map.get (slotToSignal slot) = none

def skippedRequired (map : SignalMap) (policy : VerifierPolicy) : List VerifierSlot :=
  policy.required.filter fun slot =>
    (map.get (slotToSignal slot)).bind SignalValue.status = some .skipped

def graphPolicy : Option VerifierPolicy → SlotPolicy
  | none => .required
  | some policy => slotPolicy policy.required policy.advisory .graph

/-- The overall verdict before the required slots of the policy are looked at. -/
def slotsOverall (lint : LintSlot) (types : TypesSlot) (sec : SecuritySlot) (graph : GraphSlot)
    (graphPolicy : SlotPolicy) (artifactEnforcement : Option ArtifactEnforcement) : Overall :=
  let verifierError : Bool :=
    .error ∈ [lint.status, types.status, sec.status, graph.status]
  let graphHardFail : Bool := graphPolicy = .required && graph.brokenEdges > 0
  let graphAdvisory : Bool := graphPolicy = .advisory && graph.brokenEdges > 0
  if verifierError || types.errors > 0 || lint.errors > 0 || sec.critical > 0 || graphHardFail ||
      artifactEnforcement.isSome then .fail
  else if lint.warnings > 0 || sec.high > 0 || graphAdvisory then .warn
  else .pass

/-- The overall verdict after the required slots. -/
def overall (map : SignalMap) (policy : Option VerifierPolicy) (base : Overall) : Overall :=
  match policy with
  | none => base
  | some policy =>
    if map.missingRequired policy ≠ [] ∨ map.skippedRequired policy ≠ [] then .fail else base

def verifierPolicyResult (map : SignalMap) (policy : VerifierPolicy) : VerifierPolicyResult where
  required := policy.required
  advisory := policy.advisory
  missingRequired := map.missingRequired policy
  skippedRequired := map.skippedRequired policy

/-- `StateReducer.reduce` on the signals of the task. -/
def reduce (map : SignalMap) (taskId : String) (turn : Nat) (policy : Option VerifierPolicy)
    (policyHash : Option String) (now : String) : ReducedStatePacket :=
  let na := map.notApplicable policy
  let lint := map.lint (.lint ∈ na)
  let types := map.types (.types ∈ na)
  let sec := map.sec (.security ∈ na)
  let imports := map.imports (.imports ∈ na)
  let graph := map.graph (.graph ∈ na)
  let artifactEnforcement := map.artifactEnforcement
  let base := slotsOverall lint types sec graph (graphPolicy policy) artifactEnforcement
  { taskId, turn
    ts := now
    changes := map.changes
    graph
    verification := { lint, types, security := sec, imports, overall := map.overall policy base }
    artifactEnforcement
    emissions := map.emissions
    verifierPolicy := policy.map map.verifierPolicyResult
    contributingSignals := map.contributingSignals
    policyHash }

end SignalMap

def StateReducer.reduce (r : StateReducer) (taskId : String) (turn : Nat)
    (policy : Option VerifierPolicy) (policyHash : Option String) (now : String) :
    ReducedStatePacket :=
  (r.signalsOf taskId).reduce taskId turn policy policyHash now

end KirkForge
