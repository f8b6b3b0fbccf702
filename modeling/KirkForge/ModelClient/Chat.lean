import KirkForge.ModelClient.CircuitBreaker
import KirkForge.Theory.JsNumber
import KirkForge.Theory.Text

/-!
# Model calls

`ModelClient.chat`, its limiter and its retries (`model-client/src/model-client.ts`). Every call on
any client shares one circuit breaker and one limiter, which `setMaxConcurrent` replaces. A call is
a process between its awaits: queued for a slot, resumed with one, waiting for a response or for the
time to try again. Its request loop is returned without being awaited, so that the slot is given
back when the loop is begun.
-/

namespace KirkForge

/-- The options that `chat` reads itself. The adapters read the others. -/
structure ModelClientOptions where
  baseUrl : String
  defaultModel : String
  maxRetries : JsNumber
  providerType : String

inductive ModelClientErrorCode
  | networkError | timeout | authError | rateLimit | apiError | parseError
  deriving DecidableEq

structure ModelClientError where
  code : ModelClientErrorCode
  statusCode : Option Nat := none
  retryAfterMs : Option JsNumber := none

/-! ### The limiter -/

/-- A limiter, with the numbers of the calls that wait in its queue. -/
structure ConcurrencyLimiter where
  maxConcurrent : JsNumber
  running : Int := 0
  queue : List Nat := []

namespace ConcurrencyLimiter

/-- Whether a slot is taken at once, and the limiter after the call. -/
def acquire (call : Nat) (limiter : ConcurrencyLimiter) : Bool × ConcurrencyLimiter :=
  if JsNumber.gt limiter.maxConcurrent (.finite limiter.running) then
    (true, { limiter with running := limiter.running + 1 })
  else (false, { limiter with queue := limiter.queue ++ [call] })

/-- The call that is woken, with a slot taken for it. -/
def release (limiter : ConcurrencyLimiter) : Option Nat × ConcurrencyLimiter :=
  match limiter.queue with
  | [] => (none, { limiter with running := limiter.running - 1 })
  | next :: rest =>
    (some next, { limiter with running := limiter.running - 1 + 1, queue := rest })

end ConcurrencyLimiter

namespace ModelClient

/-- `baseUrl.replace(/https?:\/\//, "")` on characters. -/
def removeScheme : List Char → List Char
  | [] => []
  | c :: cs =>
    if "http://".toList.isPrefixOf (c :: cs) then cs.drop 6
    else if "https://".toList.isPrefixOf (c :: cs) then cs.drop 7
    else c :: removeScheme cs

def cbKey (config : ModelClientOptions) : String :=
  config.providerType ++ ":" ++ config.defaultModel ++
    (if config.providerType = "openai" then
      ":" ++ (Text.split '/' (String.ofList (removeScheme config.baseUrl.toList))).headD ""
    else "")

def backoff (attempt : Nat) : JsNumber := JsNumber.min ((1000 * 2 ^ attempt : Nat) : JsNumber) 300000

/-- The delay before the next attempt, without its jitter, if there is to be one. -/
def shouldRetry (e : ModelClientError) (attempt : Nat) (maxRetries : JsNumber) : Option JsNumber :=
  if JsNumber.le maxRetries attempt then none
  else match e.code with
    | .rateLimit => some (JsNumber.min (e.retryAfterMs.getD 2000) 300000)
    | .timeout => if attempt = 0 then some 1000 else none
    | .authError | .parseError => none
    | .apiError =>
      match e.statusCode with
      | some status =>
        if status = 400 || status = 401 || status = 403 then none
        else if 500 ≤ status then some (backoff attempt)
        else if 400 ≤ status then none
        else some (backoff attempt)
      | none => some (backoff attempt)
    | .networkError => some (backoff attempt)

end ModelClient

/-! ### Calls in progress -/

inductive CallPhase
  | queued
  /-- The slot is taken, and the call has not been resumed yet. -/
  | holding
  | requesting (attempt : Nat)
  /-- Waiting for the time of the next attempt. -/
  | sleeping (attempt : Nat)
  | settled
  deriving DecidableEq

/-- A call of `chat`. Limiters are told apart by how many there were before them. -/
structure ChatCall where
  config : ModelClientOptions
  /-- The limiter of which `acquire` was called, and from which the slot is taken. -/
  limiter : Nat
  phase : CallPhase
  /-- The limiters to which a slot was given back. -/
  givenTo : List Nat := []

/-- How an attempt ends. -/
inductive RequestOutcome
  | response
  | modelError (e : ModelClientError)
  | otherError

/-- The static fields of `ModelClient`, and the calls that were made. -/
structure ModelClients where
  breaker : CircuitBreaker := {}
  limiter : ConcurrencyLimiter := { maxConcurrent := 10 }
  /-- The limiters that were replaced, in order. -/
  past : List ConcurrencyLimiter := []
  calls : List ChatCall := []

inductive ClientInput
  | chat (config : ModelClientOptions)
  | resume (call : Nat) (now : Int)
  | settle (call : Nat) (outcome : RequestOutcome) (now : Int)
  | wake (call : Nat)
  | setMaxConcurrent (max : JsNumber)

namespace ModelClients

open ModelClient

def setPhase (id : Nat) (call : ChatCall) (phase : CallPhase) (s : ModelClients) : ModelClients :=
  { s with calls := s.calls.set id { call with phase } }

/-- `ModelClient.concurrencyLimiter.release()` -/
def release (s : ModelClients) : ModelClients :=
  match s.limiter.release with
  | (none, limiter) => { s with limiter }
  | (some next, limiter) =>
    match s.calls[next]? with
    | some call => setPhase next call .holding { s with limiter }
    | none => { s with limiter }

/-- The attempt with this number is begun, or the loop is over. -/
def attemptPhase (attempt : Nat) (config : ModelClientOptions) : CallPhase :=
  if JsNumber.le attempt config.maxRetries then .requesting attempt else .settled

/-- The rest of `chat` once the slot is taken, up to the `finally`: the circuit is checked, and the
request loop begun. -/
def resume (id : Nat) (call : ChatCall) (now : Int) (s : ModelClients) : ModelClients :=
  let r := s.breaker.isOpen (cbKey call.config) now
  let phase := if r.1 then .settled else attemptPhase 0 call.config
  let call := { call with phase, givenTo := call.givenTo ++ [s.past.length] }
  release { s with breaker := r.2, calls := s.calls.set id call }

/-- What follows an attempt. -/
def settle (id : Nat) (call : ChatCall) (attempt : Nat) (outcome : RequestOutcome) (now : Int)
    (s : ModelClients) : ModelClients :=
  match outcome with
  | .response =>
    setPhase id call .settled { s with breaker := s.breaker.recordSuccess (cbKey call.config) }
  | .modelError e =>
    let breaker :=
      if e.code ≠ .timeout then s.breaker.recordFailure (cbKey call.config) now else s.breaker
    setPhase id call
      (if (shouldRetry e attempt call.config.maxRetries).isSome then .sleeping attempt
        else .settled) { s with breaker }
  | .otherError => setPhase id call .settled s

def step (s : ModelClients) : ClientInput → ModelClients
  | .chat config =>
    let r := s.limiter.acquire s.calls.length
    { s with
      limiter := r.2
      calls := s.calls ++ [⟨config, s.past.length, if r.1 then .holding else .queued, []⟩] }
  | .resume id now =>
    match s.calls[id]? with
    | some call => if call.phase = .holding then resume id call now s else s
    | none => s
  | .settle id outcome now =>
    match s.calls[id]? with
    | some call =>
      match call.phase with
      | .requesting attempt => settle id call attempt outcome now s
      | _ => s
    | none => s
  | .wake id =>
    match s.calls[id]? with
    | some call =>
      match call.phase with
      | .sleeping attempt => setPhase id call (attemptPhase (attempt + 1) call.config) s
      | _ => s
    | none => s
  | .setMaxConcurrent max =>
    { s with limiter := { maxConcurrent := max }, past := s.past ++ [s.limiter] }

/-! ### Keeping to the limit -/

/-- The request loop of the call is in progress. -/
def InLoop (call : ChatCall) : Prop :=
  match call.phase with
  | .requesting _ | .sleeping _ => True
  | _ => False

instance (call : ChatCall) : Decidable (InLoop call) := by
  unfold InLoop
  split <;> infer_instance

/-- The number of request loops in progress. -/
def loops (s : ModelClients) : Nat := s.calls.countP fun call => InLoop call

/-- The limits that were in force, in order. -/
def limits (s : ModelClients) : List JsNumber :=
  s.past.map (·.maxConcurrent) ++ [s.limiter.maxConcurrent]

/-- So many calls are no more than a limit that was in force since the call was made. -/
def WithinLimit (s : ModelClients) (n : Nat) (call : ChatCall) : Prop :=
  ∃ max ∈ s.limits.drop call.limiter, JsNumber.le n max = true

/-- The call has a slot, or its request loop is in progress. -/
def Busy (call : ChatCall) : Prop := call.phase = .holding ∨ InLoop call

instance (call : ChatCall) : Decidable (Busy call) := inferInstanceAs (Decidable (_ ∨ _))

structure Orderly (s : ModelClients) : Prop where
  /-- The request loops in progress are no more than the largest limit since they started. -/
  bounded : 0 < s.loops → ∃ call ∈ s.calls, InLoop call ∧ WithinLimit s s.loops call
  /-- A slot is given back once, to the limiter that it was taken from. -/
  books : ∀ call ∈ s.calls,
    call.givenTo = if call.phase = .queued ∨ call.phase = .holding then [] else [call.limiter]
  /-- A call is queued only while there are as many calls in progress as the limit allows. -/
  served : (∃ call ∈ s.calls, call.phase = .queued) →
    ¬JsNumber.gt s.limiter.maxConcurrent (s.calls.countP fun call => Busy call) = true

/-- The limiter is replaced only while no call waits for a slot or holds one. Where fewer calls hold
a slot than the limit, a call is made only if the request loops in progress leave one too. A request
loop is begun only while no call is queued, since the slot is given back at once. -/
def LeavesRoom (s : ModelClients) : ClientInput → Prop
  | .setMaxConcurrent _ => ∀ call ∈ s.calls, call.phase ≠ .queued ∧ call.phase ≠ .holding
  | .chat _ =>
    JsNumber.gt s.limiter.maxConcurrent (s.calls.countP fun call => call.phase = .holding) = true →
      JsNumber.le ((s.calls.countP fun call => Busy call) + 1 : Nat) s.limiter.maxConcurrent = true
  | .resume id now =>
    ∀ call, s.calls[id]? = some call → call.phase = .holding →
      (s.breaker.isOpen (cbKey call.config) now).1 = false →
      JsNumber.le 0 call.config.maxRetries = true → ∀ c ∈ s.calls, c.phase ≠ .queued
  | _ => True

end ModelClients

end KirkForge
