import KirkForge.CoreTypes.Events
import KirkForge.Theory.JsNumber
import KirkForge.Theory.JsValue
import KirkForge.Theory.LiveSet
import KirkForge.Theory.OrderedMap
import KirkForge.Theory.Run

/-!
# The event bus

`EventBus` (`core-events/src/index.ts`). `emit` is one step up to the call of the first handler, and
each handler that settles is a step up to the call of the next one or to the result. In between, and
from within the handlers, the bus may be used in any way: handlers come and go, and other emissions
begin and end.
-/

namespace KirkForge

inductive EventKind
  | signal (kind : SignalKind)
  | eventBusOverflowed
  deriving DecidableEq, Repr

def EventKind.name : EventKind → String
  | signal kind => kind.name
  | eventBusOverflowed => "event.bus.overflowed"

/-- The fields of an overflow event beside those that every event has. -/
structure OverflowDetails where
  bufferSize : Nat
  bufferCapacity : JsNumber
  originalEventKind : String
  originalStreamId : String
  deriving DecidableEq

/-- An event; of its `value`, if it has one, only the JSON text is of interest here. -/
structure KirkForgeEvent where
  kind : EventKind
  sequence : JsNumber
  streamId : String
  value : Option String := none
  overflow : Option OverflowDetails := none
  timestamp : String
  deriving DecidableEq

/-- Which object an event is: one of the callers' or one that the bus has made. -/
inductive EventRef
  | caller (n : Nat)
  | bus (sequence : Nat)
  deriving DecidableEq

structure EventObject where
  ref : EventRef
  event : KirkForgeEvent
  deriving DecidableEq

abbrev HandlerId := Nat

structure HandlerError where
  handlerName : String
  cause : String
  deriving DecidableEq

def HandlerError.message (e : HandlerError) : String :=
  "Handler " ++ e.handlerName ++ " failed: " ++ e.cause

/-- The errors that `emit` declares. -/
inductive EmitError
  | handler (error : HandlerError)
  | bufferOverflow (capacity size : JsNumber)
  | idempotency (eventId : String)
  deriving DecidableEq

/-- How a handler ends: with a result, or by throwing an error. -/
inductive HandlerOutcome
  | ok
  | err (error : HandlerError)
  | threw (message : String)
  deriving DecidableEq

structure BusEnv where
  sha256 : String → String
  handlerName : HandlerId → String
  /-- `toISOString` of a time in milliseconds. -/
  isoText : Nat → String

structure EventBusOptions where
  bufferCapacity : JsNumber := 1000
  idempotencyCacheSize : JsNumber := 10000
  idempotencyTtlMs : JsNumber := 300000

structure EventBus where
  handlers : OrderedMap EventKind (LiveSet HandlerId) := ∅
  buffer : List EventObject := []
  bufferCapacity : JsNumber
  /-- The times in milliseconds at which the events were processed. -/
  idempotency : OrderedMap String Nat := ∅
  idempotencySize : JsNumber
  idempotencyTtlMs : JsNumber
  sequence : Nat := 0
  running : Bool := true
  shuttingDown : Bool := false
  inflight : Nat := 0
  /-- Whether a shutdown waits for the emissions on their way, and whether it was told of their
  end. -/
  drainAwaited : Bool := false
  drained : Bool := false

/-- What `emit` did with an event. -/
inductive EmitPath
  | notRunning | overflow | duplicate | accepted
  deriving DecidableEq

/-- `emit` returns an error, or the result of processing an object. -/
inductive Admission
  | refused (path : EmitPath) (error : EmitError)
  | process (path : EmitPath) (object : EventObject)

namespace EventBus

variable (env : BusEnv)

def create (options : EventBusOptions) : EventBus where
  bufferCapacity := options.bufferCapacity
  idempotencySize := options.idempotencyCacheSize
  idempotencyTtlMs := options.idempotencyTtlMs

def makeEventId (event : KirkForgeEvent) : String :=
  let sequence := match event.sequence with
    | .finite q => (JsNumber.finite q).text
    | _ => "null"
  env.sha256 (r#"{"kind":"# ++ String.ofList (JsValue.quote event.kind.name) ++ r#","streamId":"# ++
    String.ofList (JsValue.quote event.streamId) ++ r#","sequence":"# ++ sequence ++
    r#","payload":"# ++ event.value.getD "\"\"" ++ r#","ts":"# ++
    String.ofList (JsValue.quote event.timestamp) ++ r"}")

def handlersOf (bus : EventBus) (kind : EventKind) : LiveSet HandlerId :=
  (bus.handlers.get? kind).getD []

def on (kind : EventKind) (handler : HandlerId) (bus : EventBus) : EventBus :=
  { bus with handlers := bus.handlers.set kind (LiveSet.add handler (bus.handlersOf kind)) }

/-- The function that `on` returns. -/
def unsubscribe (kind : EventKind) (handler : HandlerId) (bus : EventBus) : EventBus :=
  { bus with handlers := bus.handlers.set kind (LiveSet.delete handler (bus.handlersOf kind)) }

def accepting (bus : EventBus) : Bool := bus.running && !bus.shuttingDown

def full (bus : EventBus) : Bool := JsNumber.le bus.bufferCapacity bus.buffer.length

/-- `processedAt < now - ttl` -/
def expired (now : Nat) (ttl : JsNumber) (processedAt : Nat) : Bool :=
  match ttl with
  | .finite ttl => (processedAt : ℚ) < now - ttl
  | .negInf => true
  | .posInf | .nan => false

/-- The loop that deletes the oldest entries, with as much fuel as there are entries. -/
def evict (size : JsNumber) : Nat → OrderedMap String Nat → OrderedMap String Nat
  | 0, idempotency => idempotency
  | fuel + 1, idempotency =>
    if JsNumber.gt idempotency.entries.length size then
      match idempotency.keys.head? with
      | none => idempotency
      | some firstKey => evict size fuel (idempotency.delete firstKey)
    else idempotency

def trimIdempotency (now : Nat) (bus : EventBus) : EventBus :=
  let fresh := bus.idempotency.entries.foldl
    (fun idempotency entry =>
      if expired now bus.idempotencyTtlMs entry.2 then idempotency.delete entry.1 else idempotency)
    bus.idempotency
  { bus with idempotency := evict bus.idempotencySize fresh.entries.length fresh }

def overflowEvent (now : Nat) (event : KirkForgeEvent) (bus : EventBus) : EventObject where
  ref := .bus (bus.sequence + 1)
  event :=
    { kind := .eventBusOverflowed
      sequence := (bus.sequence + 1 : Nat)
      streamId := event.streamId
      overflow := some
        { bufferSize := bus.buffer.length
          bufferCapacity := bus.bufferCapacity
          originalEventKind := event.kind.name
          originalStreamId := event.streamId }
      timestamp := env.isoText now }

/-- `emit` up to `_process`; `trimNow` is the time when it looks at the clock again. -/
def emit (object : EventObject) (now trimNow : Nat) (bus : EventBus) : EventBus × Admission :=
  if !bus.accepting then
    (bus, .refused .notRunning (.handler ⟨"emit", "EventBus is not running"⟩))
  else if bus.full then
    ({ bus with sequence := bus.sequence + 1 },
      .process .overflow (overflowEvent env now object.event bus))
  else
    let eventId := makeEventId env object.event
    if bus.idempotency.has eventId then (bus, .refused .duplicate (.idempotency eventId))
    else
      let bus := { bus with
        buffer := bus.buffer ++ [object]
        idempotency := bus.idempotency.set eventId now }
      (trimIdempotency trimNow bus, .process .accepted object)

/-- The `finally` block of `_process`. -/
def finish (object : EventObject) (bus : EventBus) : EventBus :=
  let inflight := bus.inflight - 1
  let buffer := bus.buffer.eraseP fun o => o.ref = object.ref
  { bus with
    inflight := inflight
    drained := bus.drained || (bus.shuttingDown && inflight = 0 && bus.drainAwaited)
    buffer := if buffer.length > 500 then buffer.drop (buffer.length - 500) else buffer }

def drainBuffer (bus : EventBus) : EventBus := { bus with buffer := [] }

def shutdown (bus : EventBus) : EventBus := { bus with running := false, shuttingDown := true }

/-- `gracefulShutdown` up to the race of the drain with the timeout. -/
def gracefulShutdown (bus : EventBus) : EventBus :=
  if bus.inflight = 0 then { bus with shuttingDown := true, running := false }
  else { bus with shuttingDown := true, drainAwaited := true }

/-- `gracefulShutdown` after the race, which the timeout ends if the drain does not. -/
def gracefulShutdownEnds (timedOut : Bool) (bus : EventBus) : EventBus :=
  if bus.drainAwaited && (timedOut || bus.drained) then { bus with running := false } else bus

end EventBus

/-- The error that `_process` records for a handler. -/
def HandlerOutcome.error (env : BusEnv) (handler : HandlerId) :
    HandlerOutcome → Option HandlerError
  | ok => none
  | err error => some error
  | threw message => some ⟨env.handlerName handler, message⟩

/-! ### The bus over time -/

/-- A run of `_process` that awaits a handler: how `emit` got there, the object that was emitted and
the one that is processed, the place of the traversal of the handlers, the handlers that have ended,
and those that were unsubscribed meanwhile. -/
structure Processing where
  path : EmitPath
  emitted : EventObject
  object : EventObject
  place : Nat
  handler : HandlerId
  errors : List HandlerError := []
  runs : List (HandlerId × HandlerOutcome) := []
  unsubscribed : List HandlerId := []

/-- The run with the end of its handler recorded. -/
def Processing.record (env : BusEnv) (p : Processing) (outcome : HandlerOutcome) : Processing :=
  { p with
    errors := p.errors ++ (outcome.error env p.handler).toList
    runs := p.runs ++ [(p.handler, outcome)] }

/-- A call of `emit` that has returned, with the object that was processed, if any, the handlers
that ran on it, and those that were registered for the kind of the emitted event at the end. -/
structure EmitCall where
  path : EmitPath
  emitted : EventObject
  processed : Option EventObject := none
  result : Except EmitError Unit
  runs : List (HandlerId × HandlerOutcome) := []
  registered : List HandlerId
  unsubscribed : List HandlerId := []

structure BusLog where
  bus : EventBus
  processings : List Processing := []
  calls : List EmitCall := []

inductive BusInput
  | on (kind : EventKind) (handler : HandlerId)
  | unsubscribe (kind : EventKind) (handler : HandlerId)
  | emit (object : EventObject) (now trimNow : Nat)
  /-- The handler that this run of `_process` awaits ends. -/
  | settle (i : Nat) (outcome : HandlerOutcome)
  | drainBuffer
  | shutdown
  | gracefulShutdown
  | gracefulShutdownEnds (timedOut : Bool)

namespace BusLog

variable (env : BusEnv)

def init (options : EventBusOptions) : BusLog := { bus := EventBus.create options }

def registered (s : BusLog) (kind : EventKind) : List HandlerId :=
  LiveSet.elements (s.bus.handlersOf kind)

/-- `_process` up to the first handler; there is none if the set of handlers is empty. -/
def begin (s : BusLog) (path : EmitPath) (emitted object : EventObject) : BusLog :=
  match LiveSet.next (s.bus.handlersOf object.event.kind) 0 with
  | none =>
    { s with calls := s.calls ++
        [{ path
           emitted
           processed := some object
           result := .ok ()
           registered := s.registered emitted.event.kind }] }
  | some (place, handler) =>
    { s with
      bus := { s.bus with inflight := s.bus.inflight + 1 }
      processings := s.processings ++ [{ path, emitted, object, place, handler }] }

def afterAdmission (s : BusLog) (object : EventObject) : Admission → BusLog
  | .refused path error =>
    { s with calls := s.calls ++
        [{ path
           emitted := object
           result := .error error
           registered := s.registered object.event.kind }] }
  | .process path processed => s.begin path object processed

/-- The result of `_process`. -/
def resultOf (errors : List HandlerError) : Except EmitError Unit :=
  match errors with
  | [] => .ok ()
  | error :: _ => .error (.handler error)

/-- A handler of the `i`th run has ended: `_process` goes on to the next one or to its result. -/
def resume (s : BusLog) (i : Nat) (p : Processing) : BusLog :=
  match LiveSet.next (s.bus.handlersOf p.object.event.kind) p.place with
  | some (place, handler) =>
    { s with processings := s.processings.set i { p with place, handler } }
  | none =>
    { bus := s.bus.finish p.object
      processings := s.processings.eraseIdx i
      calls := s.calls ++
        [{ path := p.path
           emitted := p.emitted
           processed := some p.object
           result := resultOf p.errors
           runs := p.runs
           registered := s.registered p.emitted.event.kind
           unsubscribed := p.unsubscribed }] }

def step (s : BusLog) : BusInput → BusLog
  | .on kind handler => { s with bus := s.bus.on kind handler }
  | .unsubscribe kind handler =>
    { s with
      bus := s.bus.unsubscribe kind handler
      processings := s.processings.map fun p =>
        if p.object.event.kind = kind ∧ handler ∈ s.registered kind then
          { p with unsubscribed := p.unsubscribed ++ [handler] }
        else p }
  | .emit object now trimNow =>
    let r := s.bus.emit env object now trimNow
    { s with bus := r.1 }.afterAdmission object r.2
  | .settle i outcome =>
    match s.processings[i]? with
    | none => s
    | some p => s.resume i (p.record env outcome)
  | .drainBuffer => { s with bus := s.bus.drainBuffer }
  | .shutdown => { s with bus := s.bus.shutdown }
  | .gracefulShutdown => { s with bus := s.bus.gracefulShutdown }
  | .gracefulShutdownEnds timedOut => { s with bus := s.bus.gracefulShutdownEnds timedOut }

end BusLog

end KirkForge
