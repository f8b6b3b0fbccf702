import KirkForge.Orchestrator.ArtifactMode
import KirkForge.Theory.FileSystem
import KirkForge.Theory.RelativePath

/-!
# Path safety

The checks on the paths a model chooses and the writer behind them (`path-safety.ts`), over file
systems without links, where the two symlink guards never apply. The working directory is given
resolved. What stops a write before its temporary file is there is an input, and so is the part of
the temporary name that comes from the clock and the random source.
-/

namespace KirkForge

/-- The files on disk: the names of a path are characters, the contents are bytes. -/
abbrev ArtifactDisk := FileSystem (List Char) ByteArray

/-- The part of a task profile that `writeArtifacts` reads. -/
structure TaskProfileLike where
  language : Option String := none
  allowedExtensions : Option (List String) := none
  forbiddenExtensions : Option (List String) := none
  writePolicy : Option WritePolicy := none

/-! ### Checks on a path -/

def MAX_ARTIFACT_BYTES : Nat := 1024 * 1024

def ALLOWED_HIDDEN_SEGMENTS : List String := [".vscode", ".idea"]

def isInsideCwd (fullPath cwd : AbsPath) : Bool :=
  let rel := cwd.relative fullPath
  !(rel = "" || rel = ".." || Text.startsWith rel "../" || Text.startsWith rel "/")

def isAbsolutePath (p : String) : Bool :=
  Text.startsWith p "/" ||
    match p.toList with
    | letter :: ':' :: '\\' :: _ => letter.isAlpha
    | _ => false

/-- The part of `base` from its last dot, and nothing if that is the first character. -/
def extractExtension (filePath : String) : String :=
  let base := (Path.basename filePath).toList
  let ext := base.reverse.takeWhile (· ≠ '.')
  if '.' ∈ base ∧ ext.length + 1 < base.length then
    Text.toLowerCase (String.ofList ('.' :: ext.reverse))
  else ""

def isSeparator (c : Char) : Bool := c = '/' || c = '\\'

/-- `filePath.split(/[/\\]+/)`, less the empty string before or after a separator at the end. -/
def pathParts (filePath : String) : List String :=
  ((filePath.toList.splitOnP isSeparator).filter (· ≠ [])).map String.ofList

def hasHiddenSegment (filePath : String) : Bool :=
  (pathParts filePath).any fun part =>
    Text.startsWith part "." && part != "." && part != ".." &&
      !ALLOWED_HIDDEN_SEGMENTS.contains part

/-- The reason not to write an artifact, judged by its path and the profile. -/
def disallowedArtifact (art : ParsedArtifact) (profile : Option TaskProfileLike) :
    Option String :=
  let base := Path.basename art.filePath
  let ext := extractExtension art.filePath
  let forbidden := (profile.bind (·.forbiddenExtensions)).getD []
  let allowed := (profile.bind (·.allowedExtensions)).getD []
  let lang := (profile.bind (·.language)).getD "task"
  if isAbsolutePath art.filePath then
    some ("absolute path \"" ++ art.filePath ++ "\" is not allowed")
  else if Text.startsWith base "." then
    some ("hidden dotfile \"" ++ base ++ "\" is not allowed (dotfiles are default-deny)")
  else if hasHiddenSegment art.filePath then
    some ("hidden directory segment in path \"" ++ art.filePath ++ "\" is not allowed")
  else if ext ≠ "" ∧ forbidden.contains ext then
    some (lang ++ " task cannot emit \"" ++ art.filePath ++ "\" (forbidden extension " ++ ext ++
      ")")
  else if allowed.length > 0 then
    if ext = "" then
      some (lang ++ " task emitted \"" ++ art.filePath ++ "\" — no-extension files not allowed")
    else if !allowed.contains ext then
      some (lang ++ " task emitted \"" ++ art.filePath ++ "\" with unexpected extension " ++ ext)
    else none
  else none

/-! ### Checks on the content -/

/-- More than three of ten code units among the first 8192 are not printable. The quotient of two
numbers of that size is above the floating-point 0.3 exactly when it is above 3/10. -/
def isBinaryLikeContent (content : String) : Bool :=
  let sample := (Text.utf16 content).take 8192
  let nonPrintable := sample.countP fun cc => cc < 32 && cc != 9 && cc != 10 && cc != 13
  3 * sample.length < 10 * nonPrintable

/-- `Buffer.byteLength(content, "utf-8")` -/
def byteLength (content : String) : Nat := content.utf8ByteSize

/-! ### The writer -/

/-- What one write learns from outside. -/
structure WriteIo where
  /-- `Date.now()` -/
  now : Nat
  /-- `randomBytes(4).toString("hex")` -/
  random : String
  /-- The message of the exception when the write does not start. -/
  message : String
  /-- A file that exists can be read. -/
  readable : Bool
  /-- How many directories are made before a write that is stopped by something else than the
  nodes in its way. The temporary file is written in full or not at all. -/
  stoppedAt : Option Nat

/-- The parent directory and the name of a path. -/
def dirname (p : AbsPath) : List (List Char) := p.segments.dropLast

def lastName (p : AbsPath) : List Char := p.segments.getLastD []

def tmpName (io : WriteIo) (p : AbsPath) : List Char :=
  lastName p ++ (".tmp." ++ toString io.now ++ "." ++ io.random).toList

/-- Step 10: the directories, the temporary file and the move. What is done before a step that fails
stays. -/
def tryWrite (io : WriteIo) (disk : ArtifactDisk) (fullPath : AbsPath) (content : String) :
    ArtifactDisk × Bool :=
  let dir := dirname fullPath
  let tmp := tmpName io fullPath
  match io.stoppedAt with
  | some n => ((disk.mkdirs (dir.take n)).getD disk, false)
  | none =>
    match disk.mkdirs dir with
    | none => (disk, false)
    | some disk =>
      match disk.create dir tmp content.toByteArray with
      | none => (disk, false)
      | some disk =>
        match disk.rename (dir ++ [tmp]) dir (lastName fullPath) with
        | none => (disk, false)
        | some disk => (disk, true)

def blockedResult (art : ParsedArtifact) (reason : String) : WriteResult :=
  { filePath := art.filePath, bytes := 0, ok := false, blocked := some reason }

/-- The paths that the profile denies, relative to the working directory. -/
def deniedPath (profile : Option TaskProfileLike) (relPath : String) : Bool :=
  ((profile.bind (·.writePolicy)).bind (·.denyPaths)).any fun denyPaths =>
    denyPaths.any fun d => relPath = d || Text.startsWith relPath (d ++ "/")

def allowOverwrite (profile : Option TaskProfileLike) : Bool :=
  (profile.bind (·.writePolicy)).bind (·.allowOverwrite) = some true

section Writer

variable (sha256 : ByteArray → String) (cwd : AbsPath) (profile : Option TaskProfileLike)

/-- The body of the loop over the artifacts. -/
def writeArtifact (io : WriteIo) (disk : ArtifactDisk) (art : ParsedArtifact) :
    ArtifactDisk × WriteResult :=
  let fullPath := cwd.resolve art.filePath
  if !isInsideCwd fullPath cwd then
    (disk, blockedResult art ("resolved path escapes sandbox: " ++ art.filePath))
  else
    match disallowedArtifact art profile with
    | some rejection => (disk, blockedResult art rejection)
    | none =>
      if byteLength art.content > MAX_ARTIFACT_BYTES then
        (disk, blockedResult art ("artifact exceeds maximum size (" ++
          toString (byteLength art.content) ++ " bytes > " ++ toString MAX_ARTIFACT_BYTES ++
          " bytes)"))
      else if isBinaryLikeContent art.content then
        (disk, blockedResult art ("artifact rejected: content appears binary-like " ++
          "(>30% non-printable characters in first 8 KB)"))
      else
        let existed := (disk.node fullPath.segments).isSome
        if existed ∧ !allowOverwrite profile then
          (disk, blockedResult art ("overwrite denied (allowOverwrite not enabled in " ++
            "writePolicy): " ++ art.filePath))
        else if deniedPath profile (cwd.relative fullPath) then
          (disk, blockedResult art ("path denied by writePolicy: " ++ art.filePath))
        else if existed ∧ (disk.isDir fullPath.segments ∨ !io.readable) then
          (disk, blockedResult art ("cannot read existing file for beforeHash: " ++ art.filePath))
        else
          let (disk', ok) := tryWrite io disk fullPath art.content
          if ok then
            (disk', {
              filePath := cwd.relative fullPath
              bytes := byteLength art.content
              ok := true
              sha256 := some (sha256 art.content.toByteArray)
              beforeHash := (disk.file? fullPath.segments).map fun f => sha256 f.2
              existed := some existed })
          else (disk', blockedResult art ("write error: " ++ io.message))

/-- `writeArtifacts` from the `i`-th artifact on, with what the `i`-th write learns from outside. -/
def writeArtifacts (io : Nat → WriteIo) : Nat → ArtifactDisk → List ParsedArtifact →
    ArtifactDisk × List WriteResult
  | _, disk, [] => (disk, [])
  | i, disk, art :: arts =>
    let (disk, result) := writeArtifact sha256 cwd profile (io i) disk art
    let (disk, results) := writeArtifacts io (i + 1) disk arts
    (disk, result :: results)

end Writer

end KirkForge
