import KirkForge.Orchestrator.TaskProfile
import KirkForge.Orchestrator.Types
import KirkForge.Theory.Encoding
import KirkForge.Theory.Json
import KirkForge.Theory.Text

/-!
# Artifact mode

The parsers of a model's output for files to write, and the executor that writes them
(`artifact-mode.ts`). The hash, the writer and the environment variables are inputs.
-/

namespace KirkForge

structure ParsedArtifact where
  filePath : String
  content : String
  deriving DecidableEq, Repr

structure ParseResult where
  artifacts : List ParsedArtifact
  strictTermination : Bool
  warnings : List String
  deriving DecidableEq, Repr

structure ArtifactEnv where
  /-- `ALLOW_LEGACY_JSONL_CONTENT` is set. -/
  allowLegacyJsonlContent : Bool
  /-- `ALLOW_MARKER_ARTIFACT_FALLBACK` is set. -/
  allowMarkerArtifactFallback : Bool
  sha256Of : String → String
  /-- How a number is written as a string. -/
  numberText : ℚ → String

/-! ### The marker protocol -/

/-- A character that `.` does not match. -/
def isLineTerminator (c : Char) : Bool :=
  c = '\n' || c = '\r' || c = Char.ofNat 0x2028 || c = Char.ofNat 0x2029

/-- `line.match(FILE_MARKER)`, and the trimmed group of the match. When only white space follows
the colon the group is the last of it. -/
def fileMarker (line : String) : Option String :=
  if Text.startsWith line "### FILE:" then
    let rest := Text.sliceFrom line 9
    match Text.trimStart rest.toList with
    | [] =>
      match rest.toList.getLast? with
      | some c => if isLineTerminator c then none else some ""
      | none => none
    | group => if group.any isLineTerminator then none else some (Text.trim rest)
  else none

/-- `END_MARKER.test(line)`. -/
def isEndMarker (line : String) : Bool :=
  Text.startsWith line "### END" && (Text.sliceFrom line 7).toList.all Text.isWhitespace

def isFenceInfo (c : Char) : Bool :=
  c.isAlphanum || c = '_' || c = '+' || c = '#' || c = '.' || c = '-'

/-- The rest after the last line break of the leading white space. -/
def afterBlankLines (cs : List Char) : Option (List Char) :=
  let space := cs.takeWhile Text.isWhitespace
  if '\n' ∈ space then
    some ((space.reverse.takeWhile (· ≠ '\n')).reverse ++ cs.dropWhile Text.isWhitespace)
  else none

/-- The text between the fences, if `trimmed` is one fenced block. -/
def fencedBody (trimmed : String) : Option String :=
  if Text.startsWith trimmed "```" then
    match afterBlankLines ((trimmed.toList.drop 3).dropWhile isFenceInfo) with
    | some rest =>
      if rest.reverse.take 3 = ['`', '`', '`'] then
        let body := rest.take (rest.length - 3)
        some (String.ofList (if body.getLast? = some '\n' then body.dropLast else body))
      else none
    | none => none
  else none

def stripOuterFence (content : String) : String :=
  let body := (fencedBody (Text.trim content)).getD content
  String.ofList (Text.trimEnd body.toList) ++ "\n"

/-- The local variables of `parseArtifacts`. -/
structure MarkerState where
  artifacts : List ParsedArtifact := []
  warnings : List String := []
  currentPath : Option String := none
  currentContent : List String := []

def MarkerState.artifact (s : MarkerState) (path : String) : ParsedArtifact :=
  ⟨path, stripOuterFence (Text.join "\n" s.currentContent)⟩

/-- The body of the loop over the lines. -/
def markerLine (s : MarkerState) (line : String) : MarkerState :=
  match fileMarker line with
  | some group =>
    let s :=
      match s.currentPath with
      | some path =>
        if s.currentContent.length > 0 then
          let collision :=
            if s.currentContent.any fun cl => (fileMarker cl).isSome then
              ["artifact \"" ++ path ++ "\" content contained a line matching \"### FILE:\" — " ++
                "possible marker collision, file may be truncated"]
            else []
          { s with
            warnings := s.warnings ++ collision
            artifacts := s.artifacts ++ [s.artifact path] }
        else s
      | none => s
    { s with currentPath := some group, currentContent := [] }
  | none =>
    if isEndMarker line then
      match s.currentPath with
      | some path =>
        { s with
          artifacts := s.artifacts ++ [s.artifact path]
          currentPath := none
          currentContent := [] }
      | none => s
    else if s.currentPath.isSome then { s with currentContent := s.currentContent ++ [line] }
    else s

def parseArtifacts (output : String) : ParseResult :=
  let s := (Text.split '\n' output).foldl markerLine {}
  match s.currentPath with
  | some path =>
    if s.currentContent.length > 0 then {
      artifacts := s.artifacts ++ [s.artifact path]
      strictTermination := false
      warnings := s.warnings ++
        ["artifact \"" ++ path ++ "\" is unterminated — missing ### END marker"] }
    else { artifacts := s.artifacts, strictTermination := false, warnings := s.warnings }
  | none => { artifacts := s.artifacts, strictTermination := true, warnings := s.warnings }

/-! ### The JSONL protocol -/

/-- What a line adds: an artifact or not, warnings, and whether it breaks the protocol. -/
structure LineResult where
  artifact : Option ParsedArtifact := none
  warnings : List String := []
  violates : Bool := false
  deriving DecidableEq, Repr

def violation (warnings : List String) : LineResult := { warnings, violates := true }

/-- `line ${i + 1}: JSONL artifact "${path}"`. -/
def artifactAt (i : Nat) (path : String) : String :=
  "line " ++ toString (i + 1) ++ ": JSONL artifact \"" ++ path ++ "\""

/-- The content of a `file_write` object with the warnings about it, or the warning with which it
is refused. -/
def fileContent (env : ArtifactEnv) (i : Nat) (obj : Json) (path : String) :
    Except String (String × List String) :=
  match (obj.get? "content_b64").bind Json.str?, (obj.get? "content").bind Json.str? with
  | some b64, _ =>
    if Encoding.isBase64 b64 then .ok (Encoding.decodeUtf8 (Encoding.decodeBase64 b64), [])
    else .error (artifactAt i path ++ " has invalid base64 content_b64")
  | none, some content =>
    if env.allowLegacyJsonlContent then
      .ok (content, [artifactAt i path ++
        " uses deprecated \"content\" field — prefer \"content_b64\""])
    else
      .error (artifactAt i path ++ " uses deprecated \"content\" field — set " ++
        "ALLOW_LEGACY_JSONL_CONTENT=1 to accept legacy format")
  | none, none => .error (artifactAt i path ++ " missing both content_b64 and content fields")

/-- A line whose object has the type `file_write` and a path. -/
def fileWrite (env : ArtifactEnv) (i : Nat) (obj : Json) (path : String) : LineResult :=
  match fileContent env i obj path with
  | .error warning => violation [warning]
  | .ok (content, warnings) =>
    match ((obj.get? "sha256").bind Json.str?).filter (· ≠ "") with
    | none => violation (warnings ++ [artifactAt i path ++ " missing required sha256"])
    | some hash =>
      let actualHash := env.sha256Of content
      if actualHash ≠ hash then
        violation (warnings ++ ["line " ++ toString (i + 1) ++ ": JSONL sha256 mismatch for \"" ++
          path ++ "\": expected " ++ hash ++ ", got " ++ actualHash])
      else { artifact := some ⟨Text.trim path, content⟩, warnings }

def notJson (i : Nat) : LineResult :=
  violation ["JSONL line " ++ toString (i + 1) ++
    ": not valid JSON — protocol integrity violation"]

/-- A line whose object is of another kind. -/
def otherObject (env : ArtifactEnv) (i : Nat) (obj : Json) : LineResult :=
  match obj.get? "type" with
  | none => {}
  | some type =>
    match type.toText env.numberText with
    | none => notJson i
    | some text =>
      violation ["JSONL line " ++ toString (i + 1) ++ ": unknown artifact type \"" ++ text ++
        "\" — only \"file_write\" is recognized"]

def parseObject (env : ArtifactEnv) (i : Nat) (obj : Json) : LineResult :=
  match (obj.get? "type").bind Json.str?, (obj.get? "path").bind Json.str? with
  | some "file_write", some path => fileWrite env i obj path
  | _, _ => otherObject env i obj

/-- Whether the trimmed line begins like an object. -/
def opensObject (line : String) : Bool := Text.startsWith (Text.trim line) r"{"

/-- The body of the loop over the lines. -/
def parseLine (env : ArtifactEnv) (i : Nat) (line : String) : LineResult :=
  if Text.trim line = "" then {}
  else if opensObject line then
    match Json.parse (Text.trim line) with
    | none => notJson i
    | some obj => parseObject env i obj
  else
    violation ["JSONL line " ++ toString (i + 1) ++
      ": non-JSONL content in strict artifact stream"]

def ParseResult.add (r : ParseResult) (l : LineResult) : ParseResult where
  artifacts := r.artifacts ++ l.artifact.toList
  strictTermination := r.strictTermination && !l.violates
  warnings := r.warnings ++ l.warnings

/-- The loop over the lines. -/
def jsonlLines (env : ArtifactEnv) (output : String) : ParseResult :=
  (Text.split '\n' output).zipIdx.foldl (fun r line => r.add (parseLine env line.2 line.1))
    ⟨[], true, []⟩

def parseJsonlArtifacts (env : ArtifactEnv) (output : String) : ParseResult :=
  let r := jsonlLines env output
  if r.artifacts.length > 0 then r
  else if env.allowMarkerArtifactFallback then parseArtifacts output
  else if (Text.split '\n' output).any opensObject then ⟨[], true, []⟩
  else ⟨[], false, ["No JSONL artifact protocol detected in output"]⟩

/-! ### Execution -/

structure WriteResult where
  filePath : String
  bytes : Nat
  ok : Bool
  blocked : Option String := none
  warning : Option String := none
  sha256 : Option String := none
  beforeHash : Option String := none
  existed : Option Bool := none
  deriving DecidableEq, Repr

def blockedByProtocol (artifacts : List ParsedArtifact) (reason : String) : List WriteResult :=
  artifacts.map fun a => { filePath := a.filePath, bytes := 0, ok := false, blocked := some reason }

/-- A string that is there and not empty. -/
def truthyText (s : Option String) : Option String := s.filter (· ≠ "")

/-- The reason with which the writes of an output with a broken protocol are blocked. -/
def protocolReason (strictTermination : Bool) (emission : Emission) : String :=
  let finishReason := emission.finishReason.getD "undefined"
  Text.join " + "
    ((if strictTermination then [] else ["unterminated artifact block"]) ++
      if finishReason = "length" ∨ finishReason = "max_tokens" then
        ["truncated model output (finish_reason: " ++ finishReason ++ ")"]
      else [])

/-- `executeArtifact` on what the agent returned. The writer takes the artifacts to disk. -/
def executeArtifact {World : Type} (env : ArtifactEnv)
    (writeArtifacts : List ParsedArtifact → World → World × List WriteResult) (taskId now : String)
    (profile : Option TaskProfile) (result : Except String Emission) (world : World) :
    World × Except String DelegationResult :=
  match result with
  | .error message => (world, .error message)
  | .ok emission =>
    let parsed := parseJsonlArtifacts env emission.content
    let artifacts := parsed.artifacts
    let strictTermination := parsed.strictTermination
    let finishReason := emission.finishReason.getD "undefined"
    let wasTruncated := finishReason = "length" ∨ finishReason = "max_tokens"
    let protocolBroken := strictTermination = false ∨ wasTruncated
    let protocolReason := protocolReason strictTermination emission
    let written :=
      if protocolBroken then
        (world, blockedByProtocol artifacts
          (if parsed.warnings.length > 0 then
            protocolReason ++ " — parse warnings: " ++ Text.join "; " (parsed.warnings.take 5)
          else protocolReason))
      else writeArtifacts artifacts world
    let writes := written.2
    let allWarnings := parsed.warnings ++
      (if wasTruncated then
        ["model output was truncated (finish_reason: " ++ finishReason ++
          ") — artifact content may be incomplete"]
      else []) ++
      (if protocolBroken ∧ artifacts.length > 0 then
        ["protocol integrity violation: all " ++ toString artifacts.length ++
          " artifact(s) blocked from write"]
      else []) ++
      writes.filterMap fun w => truthyText w.warning
    let okWrites := writes.filter (·.ok)
    let blockedPaths : List BlockedPath :=
      writes.filterMap fun w => (truthyText w.blocked).map fun reason => ⟨w.filePath, reason⟩
    let signal (id domain : String) (value : DelegationSignalValue) : DelegationSignal :=
      { id, taskId, domain, source := emission.agentId, ts := now, value }
    let signals := [
      signal ("sig-" ++ taskId) "task" (.emission (Text.sliceTo emission.content 200)),
      signal ("sig-artifact-" ++ taskId) "code" (.artifactEmitted {
        filesWritten := okWrites.length
        totalBytes := (writes.map (·.bytes)).sum
        files := okWrites.map fun w => {
          path := w.filePath
          sha256 := w.sha256.getD ""
          bytes := w.bytes
          beforeHash := w.beforeHash
          existed := w.existed.getD false }
        language := (profile.map (·.language.name)).getD "unknown" })] ++
      (if strictTermination then []
      else [signal ("sig-unterminated-" ++ taskId) "code"
        (.artifactUnterminated { warnings := allWarnings })]) ++
      (if wasTruncated then
        [signal ("sig-truncated-" ++ taskId) "code"
          (.artifactTruncated { finishReason, warnings := allWarnings })]
      else []) ++
      (if blockedPaths.length > 0 then
        [signal ("sig-blocked-" ++ taskId) "code"
          (.artifactBlocked {
            blockedPaths, parseWarnings := some (allWarnings.map ParseWarning.text) })]
      else [])
    let reason := "artifact emission: " ++ toString okWrites.length ++ " files written" ++
      (if blockedPaths.length > 0 then ", " ++ toString blockedPaths.length ++ " blocked" else "") ++
      (if strictTermination then "" else " (unterminated)") ++
      (if wasTruncated then " (truncated)" else "")
    (written.1, .ok {
      decision := { mode := .artifact, reason, autoRouted := true }
      emission
      signals })

end KirkForge
