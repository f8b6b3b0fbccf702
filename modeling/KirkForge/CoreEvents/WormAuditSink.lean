import KirkForge.CoreEvents.AuditEvent
import KirkForge.Theory.OrderedMap
import KirkForge.Theory.Run

/-!
# The write-once audit sink

`WormAuditSink` (`core-events/src/audit-sinks/worm.ts`): a buffer of events with their hashes and a
directory of numbered segments, to the last of which a flush appends the buffer. A segment is the
list of its lines, each the event that parsing it gives.
-/

namespace KirkForge

/-- What stays the same when a sink is opened again on its directory. -/
structure WormEnv where
  crypto : Crypto
  hmacKey : Option String := none
  filePrefix : String := "audit-worm"
  /-- The number of bytes of `JSON.stringify(event)`. -/
  lineBytes : AuditEvent → Nat

structure WormAuditSinkConfig where
  maxSegmentBytes : JsNumber := 104857600
  maxSegments : JsNumber := 0
  verifyOnWrite : Bool := true

structure WormAuditSink where
  maxSegmentBytes : JsNumber
  maxSegments : JsNumber
  verifyOnWrite : Bool
  buffer : List AuditEvent := []
  lastHash : String
  currentSegment : Nat
  writeCount : Nat := 0

/-- The segments on disk by their numbers. -/
abbrev SegmentDirectory := OrderedMap Nat (List AuditEvent)

inductive FlushResult
  | empty | stored | refused | failed
  deriving DecidableEq

/-- The value that `flush` returns. -/
def FlushResult.ok : FlushResult → Bool
  | empty | stored => true
  | refused | failed => false

inductive WormWriteResult
  | threw | buffered | flushed (result : FlushResult)

namespace WormAuditSink

variable (env : WormEnv)

def flushSize : Nat := 50

def genesis : String := initialHash env.crypto env.hmacKey

def segmentName (segment : Nat) : String :=
  env.filePrefix ++ "-" ++ Text.padDigits 6 segment ++ ".jsonl"

/-- The segments in the order of their names. -/
def readSegments (directory : SegmentDirectory) : List (Nat × List AuditEvent) :=
  directory.entries.insertionSort fun a b => Text.le (segmentName env a.1) (segmentName env b.1)

/-- The hash of the last line that has one. -/
def restoreLastHash (lastHash : String) (lines : List AuditEvent) : String :=
  match lines.reverse.find? fun e => e.chainHash ≠ "" with
  | some event => event.chainHash
  | none => lastHash

/-- The constructor, with `_discoverLatestSegment`. -/
def create (config : WormAuditSinkConfig) (directory : SegmentDirectory) : WormAuditSink :=
  let sink : WormAuditSink :=
    { maxSegmentBytes := config.maxSegmentBytes
      maxSegments := config.maxSegments
      verifyOnWrite := config.verifyOnWrite
      lastHash := genesis env
      currentSegment := 0 }
  match (readSegments env directory).getLast? with
  | none => sink
  | some latest =>
    { sink with
      currentSegment := latest.1
      lastHash := restoreLastHash sink.lastHash latest.2 }

/-- `stats.size` -/
def segmentBytes (lines : List AuditEvent) : Nat := (lines.map fun e => env.lineBytes e + 1).sum

/-- Go on to the next segment if the current one is full. -/
def rotate (sink : WormAuditSink) (directory : SegmentDirectory) : WormAuditSink :=
  match directory.get? sink.currentSegment with
  | none => sink
  | some lines =>
    if JsNumber.le sink.maxSegmentBytes (segmentBytes env lines) then
      { sink with currentSegment := sink.currentSegment + 1 }
    else sink

/-- A new segment would be one more than there may be. -/
def atLimit (sink : WormAuditSink) (directory : SegmentDirectory) : Bool :=
  JsNumber.gt sink.maxSegments 0 && !directory.has sink.currentSegment &&
    JsNumber.le sink.maxSegments directory.entries.length

def flush (io : AppendOutcome) (sink : WormAuditSink) (directory : SegmentDirectory) :
    WormAuditSink × SegmentDirectory × FlushResult :=
  if sink.buffer.length = 0 then (sink, directory, .empty)
  else
    let sink := rotate env sink directory
    if atLimit sink directory then ({ sink with buffer := [] }, directory, .refused)
    else
      let lines := (directory.get? sink.currentSegment).getD []
      match io with
      | .done =>
        ({ sink with buffer := [] },
          directory.set sink.currentSegment (lines ++ sink.buffer.map AuditEvent.stored), .stored)
      | .failed created =>
        (sink, if created then directory.set sink.currentSegment lines else directory, .failed)

/-- Whether the hash of an event fails the check of `write` against the last event of the buffer. -/
def violatesChain (event : AuditEvent) (sink : WormAuditSink) : Bool :=
  match sink.buffer.getLast? with
  | none => false
  | some prevEvent =>
    sink.verifyOnWrite && (event.sealed env.crypto env.hmacKey sink.lastHash).chainHash ≠
      chainHashOf env.crypto env.hmacKey prevEvent.chainHash event

def write (event : AuditEvent) (io : AppendOutcome) (sink : WormAuditSink)
    (directory : SegmentDirectory) : WormAuditSink × SegmentDirectory × WormWriteResult :=
  let sealed := event.sealed env.crypto env.hmacKey sink.lastHash
  if violatesChain env event sink then
    ({ sink with lastHash := sealed.chainHash }, directory, .threw)
  else
    let sink := { sink with
      lastHash := sealed.chainHash
      buffer := sink.buffer ++ [sealed]
      writeCount := sink.writeCount + 1 }
    if flushSize ≤ sink.buffer.length then
      let r := flush env io sink directory
      (r.1, r.2.1, .flushed r.2.2)
    else (sink, directory, .buffered)

/-- Replay lines from a hash: the hash of the last of them, or nothing at a wrong one. -/
def replay (prevHash : String) : List AuditEvent → Option String
  | [] => some prevHash
  | event :: lines =>
    if event.chainHash ≠ chainHashOf env.crypto env.hmacKey prevHash event then none
    else replay event.chainHash lines

def verifyIntegrity (directory : SegmentDirectory) : Bool :=
  ((readSegments env directory).foldlM (fun prevHash segment => replay env prevHash segment.2)
    (genesis env)).isSome

end WormAuditSink

/-! ### The log over time -/

/-- A sink and its directory, with the events whose write was accepted: those that wait for a flush
and those that were flushed. -/
structure Worm where
  sink : WormAuditSink
  directory : SegmentDirectory
  pending : List AuditEvent := []
  flushed : List AuditEvent := []

inductive WormInput
  | write (event : AuditEvent) (io : AppendOutcome)
  | flush (io : AppendOutcome)
  | reopen (config : WormAuditSinkConfig)

namespace Worm

open WormAuditSink

variable (env : WormEnv)

/-- A new sink on an empty directory. -/
def init (config : WormAuditSinkConfig) : Worm := { sink := create env config ∅, directory := ∅ }

/-- What a flush means for the accepted events. -/
def account (s : Worm) : FlushResult → Worm
  | .empty | .failed => s
  | .stored => { s with pending := [], flushed := s.flushed ++ s.pending }
  | .refused => { s with pending := [] }

def step (s : Worm) : WormInput → Worm
  | .write event io =>
    let r := WormAuditSink.write env event io s.sink s.directory
    let s' := { s with sink := r.1, directory := r.2.1 }
    match r.2.2 with
    | .threw => s'
    | .buffered => { s' with pending := s.pending ++ [event] }
    | .flushed result => account { s' with pending := s.pending ++ [event] } result
  | .flush io =>
    let r := WormAuditSink.flush env io s.sink s.directory
    account { s with sink := r.1, directory := r.2.1 } r.2.2
  | .reopen config => { s with sink := create env config s.directory, pending := [] }

/-- The lines of all segments, in the order in which they are read. -/
def storedLines (s : Worm) : List AuditEvent := (readSegments env s.directory).flatMap Prod.snd

/-- The log replays, and its lines are the flushed events. -/
structure Intact (s : Worm) : Prop where
  verified : verifyIntegrity env s.directory = true
  stored : (storedLines env s).map AuditEvent.untagged =
    s.flushed.map fun e => e.stored.untagged

/-- The newest segment is empty although others are not. -/
def NewestEmpty (s : Worm) : Prop :=
  (∃ n, (readSegments env s.directory).getLast? = some (n, [])) ∧ storedLines env s ≠ []

/-- The log is written within the bounds of its format: events that JSON does not change, fewer
than a million segments, and no restart on an empty newest segment. -/
def Sound (s : Worm) : WormInput → Prop
  | .write event _ => event.SurvivesStorage ∧ s.directory.entries.length < 1000000
  | .flush _ => s.directory.entries.length < 1000000
  | .reopen _ => ¬NewestEmpty env s

end Worm

end KirkForge
