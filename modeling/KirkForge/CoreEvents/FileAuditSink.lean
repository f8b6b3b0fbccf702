import KirkForge.CoreEvents.AuditEvent
import KirkForge.Theory.Run
import Mathlib.Logic.Function.Basic

/-!
# The file audit sink

`FileAuditSink` (`core-events/src/audit-sinks/file.ts`) and the replay of one of its files by the
command `audit-verify` (`apps/cli/src/commands/audit-verify.ts`). The sink seals the buffered events
when it flushes them, and renames a file that is full before it appends to a new one.
-/

namespace KirkForge

/-- What stays the same when a sink is opened again on its path. -/
structure FileEnv where
  crypto : Crypto
  hmacKey : Option String := none
  /-- The number of bytes of `JSON.stringify(event)`. -/
  lineBytes : AuditEvent → Nat

structure FileAuditSinkConfig where
  flushInterval : JsNumber := 100
  maxFileSizeBytes : JsNumber := 52428800
  maxRotatedFiles : Nat := 10

structure FileAuditSink where
  buffer : List AuditEvent := []
  flushSize : JsNumber
  lastHash : String
  maxFileSizeBytes : JsNumber
  maxRotatedFiles : Nat

/-- The lines of the files on disk: number 0 is the log itself, number `i` the file `<log>.i`. -/
abbrev LogFiles := Nat → Option (List AuditEvent)

/-- `renameSync`, which replaces a file of the new name. -/
def LogFiles.rename (files : LogFiles) (i j : Nat) : LogFiles :=
  Function.update (Function.update files i none) j (files i)

namespace FileAuditSink

variable (env : FileEnv)

def genesis : String := initialHash env.crypto env.hmacKey

def create (config : FileAuditSinkConfig) : FileAuditSink where
  flushSize := config.flushInterval
  lastHash := genesis env
  maxFileSizeBytes := config.maxFileSizeBytes
  maxRotatedFiles := config.maxRotatedFiles

/-- The loop `.N -> .N+1` of `_rotate`, for `N` from `n` down to 1. -/
def shift : Nat → LogFiles → LogFiles
  | 0, files => files
  | n + 1, files =>
    shift n (if (files (n + 1)).isSome then files.rename (n + 1) (n + 2) else files)

/-- `stats.size` -/
def fileBytes (lines : List AuditEvent) : Nat := (lines.map fun e => env.lineBytes e + 1).sum

/-- The log is there and has reached the size at which it is rotated. -/
def rotates (sink : FileAuditSink) (files : LogFiles) : Bool :=
  match files 0 with
  | none => false
  | some lines => !JsNumber.gt sink.maxFileSizeBytes (fileBytes env lines)

def rotate (sink : FileAuditSink) (files : LogFiles) : LogFiles :=
  if rotates env sink files then (shift (sink.maxRotatedFiles - 1) files).rename 0 1 else files

/-- The events of a batch, each sealed with the hash before it. -/
def sealBatch (lastHash : String) (events : List AuditEvent) : List AuditEvent :=
  HashChain.markFrom AuditEvent.chainHash (AuditEvent.sealed env.crypto env.hmacKey) lastHash events

def flush (io : AppendOutcome) (sink : FileAuditSink) (files : LogFiles) :
    FileAuditSink × LogFiles × Bool :=
  if sink.buffer.length = 0 then (sink, files, true)
  else
    let files := rotate env sink files
    let lines := sealBatch env sink.lastHash sink.buffer
    let sink := { sink with lastHash := HashChain.lastTag AuditEvent.chainHash sink.lastHash lines }
    let log := (files 0).getD []
    match io with
    | .done =>
      ({ sink with buffer := [] },
        Function.update files 0 (some (log ++ lines.map AuditEvent.stored)), true)
    | .failed created =>
      (sink, if created then Function.update files 0 (some log) else files, false)

/-- `write`, with the result of the flush if there is one. -/
def write (event : AuditEvent) (io : AppendOutcome) (sink : FileAuditSink) (files : LogFiles) :
    FileAuditSink × LogFiles × Option Bool :=
  let sink := { sink with buffer := sink.buffer ++ [event] }
  if JsNumber.le sink.flushSize sink.buffer.length then
    let r := flush env io sink files
    (r.1, r.2.1, some r.2.2)
  else (sink, files, none)

/-- The errors of `audit-verify` on the lines of a file from a hash on. -/
def auditErrors (prevHash : String) (lineCount : Nat) : List AuditEvent → List String
  | [] => []
  | event :: lines =>
    let lineCount := lineCount + 1
    if event.chainHash = "" then
      ("Line " ++ toString lineCount ++ ": Missing chainHash") ::
        auditErrors prevHash lineCount lines
    else
      let expected := chainHashOf env.crypto env.hmacKey prevHash event
      if event.chainHash ≠ expected then
        ["Line " ++ toString lineCount ++ ": Hash mismatch (expected " ++ expected ++ ", got " ++
          event.chainHash ++ "). Chain is broken."]
      else auditErrors event.chainHash lineCount lines

/-- `audit-verify` reports the file as valid. -/
def auditValid (lines : List AuditEvent) : Bool := auditErrors env (genesis env) 0 lines = []

end FileAuditSink

/-! ### The log over time -/

/-- Whether a sink has tried to flush since it was opened, and with what success. -/
inductive Standing
  | fresh | inStep | behind
  deriving DecidableEq

/-- A sink and its files, with the events handed to `write` that wait for a flush and those whose
flush returned true, the number of rotations, and the standing of the sink. -/
structure FileLog where
  sink : FileAuditSink
  files : LogFiles := fun _ => none
  pending : List AuditEvent := []
  flushed : List AuditEvent := []
  rotations : Nat := 0
  standing : Standing := .fresh

inductive FileInput
  | write (event : AuditEvent) (io : AppendOutcome)
  | flush (io : AppendOutcome)
  | reopen (config : FileAuditSinkConfig)

namespace FileLog

open FileAuditSink

variable (env : FileEnv)

/-- A sink on a path without files. -/
def init (config : FileAuditSinkConfig) : FileLog := { sink := create env config }

/-- What a flush of a buffer that is not empty means for the log. -/
def record (s : FileLog) (r : FileAuditSink × LogFiles × Bool) : FileLog where
  sink := r.1
  files := r.2.1
  pending := if r.2.2 then [] else s.pending
  flushed := if r.2.2 then s.flushed ++ s.pending else s.flushed
  rotations := if rotates env s.sink s.files then s.rotations + 1 else s.rotations
  standing := if r.2.2 ∧ s.standing ≠ .behind then .inStep else .behind

def step (s : FileLog) : FileInput → FileLog
  | .write event io =>
    let r := FileAuditSink.write env event io s.sink s.files
    let s := { s with pending := s.pending ++ [event] }
    match r.2.2 with
    | none => { s with sink := r.1 }
    | some result => record env s (r.1, r.2.1, result)
  | .flush io =>
    if s.sink.buffer.length = 0 then s
    else record env s (FileAuditSink.flush env io s.sink s.files)
  | .reopen config => { s with sink := create env config, pending := [], standing := .fresh }

/-- The lines of the files with numbers below `n`, the oldest first. -/
def contents (files : LogFiles) : Nat → List AuditEvent
  | 0 => []
  | n + 1 => (files n).getD [] ++ contents files n

/-- The files are the log and one for each rotation, and hold the flushed events in order. -/
structure Complete (s : FileLog) : Prop where
  files : ∀ i, s.rotations < i → s.files i = none
  contents : (contents s.files (s.rotations + 1)).map AuditEvent.untagged =
    s.flushed.map fun e => e.stored.untagged

/-- `audit-verify` accepts every file. -/
def Verified (s : FileLog) : Prop := ∀ i lines, s.files i = some lines → auditValid env lines = true

/-- The call flushes a buffer that is not empty. -/
def Flushes (s : FileLog) : FileInput → Prop
  | .write _ _ => JsNumber.le s.sink.flushSize (s.sink.buffer.length + 1 : Nat) = true
  | .flush _ => s.sink.buffer ≠ []
  | .reopen _ => False

/-- There are fewer rotated files than may be kept when a flush rotates the log. -/
def WithinRotations (s : FileLog) (i : FileInput) : Prop :=
  Flushes s i → rotates env s.sink s.files = true → s.rotations < s.sink.maxRotatedFiles

def FileInput.outcome : FileInput → AppendOutcome
  | .write _ io | .flush io => io
  | .reopen _ => .done

/-- The next flush begins a file. -/
def BeginsFile (s : FileLog) : Prop :=
  rotates env s.sink s.files = true ∨ (s.files 0).getD [] = []

/-- Events that JSON does not change, appended to a file that the sink has begun itself and to which
it has since appended without a failure or a rotation. -/
structure Sound (s : FileLog) (i : FileInput) : Prop where
  survives : ∀ event io, i = .write event io → event.SurvivesStorage
  standing : Flushes s i → FileInput.outcome i = .done →
    (s.standing = .fresh ∧ BeginsFile env s) ∨
      (s.standing = .inStep ∧ rotates env s.sink s.files = false)

end FileLog

end KirkForge
