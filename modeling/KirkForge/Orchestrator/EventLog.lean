import KirkForge.Theory.JsMembers
import KirkForge.Theory.Lines

/-!
# The event log

`EventLogger` and `EventLogger.verifyLog` (`orchestrator/src/event-log.ts`). The log is a text file
with one record of JSON on each line; a record carries the HMAC of the line before it. The logger
keeps the HMAC of the last line and the next sequence number in memory, and reads them off the file
when it is made.
-/

namespace KirkForge

open JsValue

/-- The HMAC of a text under a secret, in hexadecimal, and the variable
`EVENT_LOG_HMAC_SECRET` of the environment. -/
structure EventLogEnv where
  hmac : String → String → String
  secretVariable : Option String := none

/-- An event of the bus by its members. Their keys are distinct and JSON gives their values back. -/
structure LoggedEvent where
  members : JsMembers
  wellFormed : members.WellFormed

/-- What becomes of the calls of an append: whether the file can be opened, whether the entry can be
written as JSON, and whether it is written; it is written whole or not at all. -/
structure AppendCalls where
  opens : Bool := true
  stringifies : Bool := true
  writes : Bool := true

structure EventLogger where
  /-- A file descriptor is open. -/
  fd : Bool := false
  prevHash : Option String := none
  seq : ℚ := 0

structure LogVerification where
  valid : Bool
  brokenAt : Option Nat
  entries : Nat
  deriving DecidableEq, Repr

namespace EventLogger

/-- The kinds of event that the logger subscribes to. -/
def eventKinds : List String :=
  ["verify.lint", "verify.types", "verify.security", "state.changes", "state.graph",
    "artifact.blocked", "artifact.unterminated", "artifact.truncated", "artifact.emitted"]

/-- The bus hands the event to the logger. -/
def handles (event : LoggedEvent) : Bool :=
  eventKinds.any fun kind => (event.members.get "kind").isString kind

/-- `hmacSecret || process.env.EVENT_LOG_HMAC_SECRET`; without a secret the constructor throws. -/
def secret (env : EventLogEnv) (hmacSecret : String) : Option String :=
  if hmacSecret ≠ "" then some hmacSecret else env.secretVariable.filter (· ≠ "")

variable (env : EventLogEnv) (key : String)

/-- The logger that `_recoverChain` makes of an existing log, by its last line. -/
def recoverChain : Option String → EventLogger
  | none => {}
  | some content =>
    let lines := Text.trimmedLines content
    match lines.getLast? with
    | none => {}
    | some lastLine =>
      if lastLine = "" then {}
      else
        match Json.parse lastLine with
        | none | some .null => {}
        | some lastEntry =>
          { seq :=
              match lastEntry.get? "_seq" with
              | some (.num q) => q + 1
              | _ => lines.length
            prevHash := some (env.hmac key lastLine) }

/-- `{...event, _logged, _prev, _seq}` -/
def entry (event : LoggedEvent) (now : String) (prevHash : Option String) (seq : ℚ) : JsMembers :=
  ((event.members.set "_logged" (string now)).set "_prev" (nullable prevHash)).set "_seq"
    (number (.finite seq))

/-- `JSON.stringify(entry)` -/
def entryLine (event : LoggedEvent) (now : String) (prevHash : Option String) (seq : ℚ) : String :=
  String.ofList (stringify (.obj (membersToJson (entry event now prevHash seq))))

/-- `_append`, with the file afterwards and whether the event was written. -/
def append (event : LoggedEvent) (now : String) (calls : AppendCalls) (logger : EventLogger)
    (file : Option String) : EventLogger × Option String × Bool :=
  if logger.fd = false ∧ calls.opens = false then (logger, file, false)
  else
    -- opening for appending makes an empty file if there is none
    let file := if logger.fd then file else some (file.getD "")
    let logger := { logger with fd := true }
    if calls.stringifies = false then (logger, file, false)
    else if calls.writes = false then ({ logger with fd := false }, file, false)
    else
      let line := entryLine event now logger.prevHash logger.seq
      ({ logger with prevHash := some (env.hmac key line), seq := logger.seq + 1 },
        some (file.getD "" ++ (line ++ "\n")), true)

def close (logger : EventLogger) : EventLogger := { logger with fd := false }

/-- The loop of `verifyLog` from line `i` on, where `total` lines are to be checked. -/
def verifyLines (total : Nat) : Nat → Option String → List String → LogVerification
  | _, _, [] => ⟨true, none, total⟩
  | i, prevHash, line :: lines =>
    match Json.parse line with
    | none => ⟨false, some i, total⟩
    | some entry =>
      match entry.get? "_prev", prevHash with
      | some .null, none => verifyLines total (i + 1) (some (env.hmac key line)) lines
      | some (.str s), some h =>
        if s = h then verifyLines total (i + 1) (some (env.hmac key line)) lines
        else ⟨false, some i, total⟩
      | _, _ => ⟨false, some i, total⟩

/-- `verifyLog(path, hmacSecret)`, by the text of the file if it can be read. -/
def verifyLog (env : EventLogEnv) (hmacSecret : Option String) (file : Option String) :
    LogVerification :=
  match (hmacSecret.or env.secretVariable).filter (· ≠ "") with
  | none => ⟨false, none, 0⟩
  | some key =>
    match file with
    | none => ⟨false, none, 0⟩
    | some content =>
      let lines := Text.trimmedLines content
      verifyLines env key lines.length 0 none lines

end EventLogger

/-! ### The log over time -/

/-- A logger with its file, and the events it has written to it with their times. -/
structure LogState where
  logger : EventLogger
  file : Option String := none
  appended : List (LoggedEvent × String) := []

inductive LogInput
  | emit (event : LoggedEvent) (now : String) (calls : AppendCalls)
  | close
  | restart

namespace LogState

variable (env : EventLogEnv) (key : String)

/-- A logger on a path without a file. -/
def init : LogState := { logger := EventLogger.recoverChain env key none }

/-- The line that an event adds to the file. -/
def lineOf (event : LoggedEvent) (now : String) (calls : AppendCalls) (s : LogState) :
    Option String :=
  if EventLogger.handles event ∧ (s.logger.append env key event now calls s.file).2.2 = true then
    some (EventLogger.entryLine event now s.logger.prevHash s.logger.seq)
  else none

def step (s : LogState) : LogInput → LogState
  | .emit event now calls =>
    if EventLogger.handles event then
      let r := s.logger.append env key event now calls s.file
      { logger := r.1
        file := r.2.1
        appended := if r.2.2 then s.appended ++ [(event, now)] else s.appended }
    else s
  | .close => { s with logger := s.logger.close }
  | .restart => { s with logger := EventLogger.recoverChain env key s.file }

end LogState

/-! ### A log that others can write to -/

/-- The line that `_recoverChain` goes by. -/
def EventLogger.recoveredLine : Option String → Option String
  | none => none
  | some content =>
    match (Text.trimmedLines content).getLast? with
    | none => none
    | some lastLine =>
      match Json.parse lastLine with
      | none | some .null => none
      | some _ => some lastLine

/-- A log with what its loggers have put into the file over time. Others read the file and change
it, but do not have the secret. -/
structure ExposedLog extends LogState where
  /-- The descriptor that is open is that of another file than the one at the path. -/
  detached : Bool := false
  /-- The lines that were written to the log. -/
  written : List String := []
  /-- The line whose HMAC the logger has in memory. -/
  held : Option String := none
  /-- The lines whose HMAC stands in a line that was written. -/
  signed : List String := []

inductive ExposedInput
  | emit (event : LoggedEvent) (now : String) (calls : AppendCalls)
  | close
  | restart
  /-- Somebody changes the text of the file. -/
  | edit (content : String)
  /-- Somebody puts another file at the path, or removes the file. -/
  | swap (file : Option String)

namespace ExposedLog

variable (env : EventLogEnv) (key : String)

def init : ExposedLog := { LogState.init env key with }

def step (s : ExposedLog) : ExposedInput → ExposedLog
  | .emit event now calls =>
    let next := s.toLogState.step env key (.emit event now calls)
    let line := s.toLogState.lineOf env key event now calls
    { next with
      file := if s.detached then s.file else next.file
      detached := s.detached && next.logger.fd
      written := s.written ++ line.toList
      held := line.or s.held
      signed := if line.isSome then s.signed ++ s.held.toList else s.signed }
  | .close => { s with logger := s.logger.close, detached := false }
  | .restart =>
    { s with
      logger := EventLogger.recoverChain env key s.file
      detached := false
      held := EventLogger.recoveredLine s.file }
  | .edit content => { s with file := s.file.map fun _ => content }
  | .swap file => { s with file, detached := s.logger.fd }

end ExposedLog

end KirkForge
