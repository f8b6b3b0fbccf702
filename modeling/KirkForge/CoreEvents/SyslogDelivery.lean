import KirkForge.CoreEvents.SyslogAuditSink
import KirkForge.Theory.Encoding
import KirkForge.Theory.Lists
import KirkForge.Theory.Run

/-!
# Delivery over syslog

`flush` of the syslog sink takes the buffered events and sends one message after the other, each
after the answer for the one before. The sink goes on while an answer is awaited, so that several
calls may be sending at the same time, all of them under the one hash of the sink.
-/

namespace KirkForge

structure SyslogEnv where
  crypto : Crypto
  hmacKey : Option String := none
  hostname : Option String := none

structure SyslogAuditSinkConfig where
  facility : Nat := 1
  appName : String := "kirkforge"
  flushInterval : JsNumber := 50

/-- The sink with what it has yet to send. -/
structure SyslogQueue extends SyslogAuditSink where
  buffer : List AuditEvent := []
  flushSize : JsNumber
  lastHash : String

/-- A call of `flush`: the events it took, those it has not sent, and the value it returns. -/
structure SyslogFlush where
  events : List AuditEvent
  rest : List AuditEvent
  allOk : Bool := true
  returned : Bool := false

/-- A message that a call handed to `send`, and what this resolved to. -/
structure SyslogMessage where
  event : AuditEvent
  text : String
  call : Nat
  ok : Option Bool := none

namespace SyslogMessage

def pending (message : SyslogMessage) : Bool := message.ok.isNone

def arrived (message : SyslogMessage) : Bool := message.ok = some true

def lost (message : SyslogMessage) : Bool := message.ok = some false

def ofCall (sent : List SyslogMessage) (call : Nat) : List SyslogMessage :=
  sent.filter fun message => message.call = call

def contents (sent : List SyslogMessage) : List AuditEvent :=
  sent.map fun message => message.event.untagged

end SyslogMessage

/-- A sink with the calls of `flush`, the messages in the order of sending, and the events it was
handed. -/
structure SyslogLog where
  sink : SyslogQueue
  calls : List SyslogFlush := []
  sent : List SyslogMessage := []
  written : List AuditEvent := []

inductive SyslogInput
  | write (event : AuditEvent)
  | flush
  /-- The `send` of this message resolves, if it has not yet. -/
  | settle (i : Nat) (ok : Bool)

namespace SyslogLog

open Encoding HashChain AuditEvent SyslogMessage

variable (env : SyslogEnv)

def genesis : String := initialHash env.crypto env.hmacKey

def init (config : SyslogAuditSinkConfig) : SyslogLog where
  sink :=
    { facility := config.facility, appName := config.appName, hostnameEnv := env.hostname,
      flushSize := config.flushInterval, lastHash := genesis env }

/-- The loop of `flush` from its head to the next `await`, or to the end of the call. -/
def proceed (s : SyslogLog) (call : Nat) : SyslogLog :=
  match s.calls[call]? with
  | none => s
  | some c =>
    match c.rest with
    | [] => { s with calls := s.calls.set call { c with returned := true } }
    | event :: rest =>
      let event := event.sealed env.crypto env.hmacKey s.sink.lastHash
      { s with
        sink := { s.sink with lastHash := event.chainHash }
        calls := s.calls.set call { c with rest }
        sent := s.sent ++ [{ event, text := s.sink.formatMessage event.syslog, call }] }

/-- A call of `flush` takes the events of the buffer. -/
def splice (s : SyslogLog) : SyslogLog :=
  { s with
    sink := { s.sink with buffer := [] }
    calls := s.calls ++ [{ events := s.sink.buffer, rest := s.sink.buffer }] }

def flush (s : SyslogLog) : SyslogLog :=
  if s.sink.buffer.length = 0 then s else proceed env s.splice s.calls.length

/-- The `send` of the message `i` resolves to `ok`. -/
def resolve (s : SyslogLog) (i : Nat) (message : SyslogMessage) (ok : Bool) : SyslogLog :=
  { s with
    sent := s.sent.set i { message with ok := some ok }
    calls := s.calls.modify message.call fun c => { c with allOk := c.allOk && ok } }

def push (s : SyslogLog) (event : AuditEvent) : SyslogLog :=
  { s with
    sink := { s.sink with buffer := s.sink.buffer ++ [event] }
    written := s.written ++ [event] }

def step (s : SyslogLog) : SyslogInput → SyslogLog
  | .write event =>
    let s := s.push event
    if JsNumber.le s.sink.flushSize s.sink.buffer.length then flush env s else s
  | .flush => flush env s
  | .settle i ok =>
    match s.sent[i]? with
    | none => s
    | some message =>
      if message.pending then proceed env (s.resolve i message ok) message.call else s

/-- The events of the messages that arrived, in the order of sending. -/
def arrivals (s : SyslogLog) : List AuditEvent :=
  (s.sent.filter SyslogMessage.arrived).map SyslogMessage.event

/-- The events that calls have taken and not sent. -/
def waiting (s : SyslogLog) : List AuditEvent := s.calls.flatMap SyslogFlush.rest

/-- The messages of a call are its events in their order, apart from those it still holds. It waits
for the last of them until there is nothing left, and returns whether all have arrived. -/
structure Tells (own : List SyslogMessage) (c : SyslogFlush) : Prop where
  events : contents own ++ c.rest.map untagged = c.events.map untagged
  allOk : c.allOk = own.all fun message => !message.lost
  pending : own.countP SyslogMessage.pending = if c.returned then 0 else 1
  rest : c.returned = true → c.rest = []

/-- Every event that was written is in the buffer or in the hands of one call, and the messages of
all calls together are one chain. -/
structure Accounted (s : SyslogLog) : Prop where
  written : s.calls.flatMap SyslogFlush.events ++ s.sink.buffer = s.written
  calls : ∀ call c, s.calls[call]? = some c → Tells (ofCall s.sent call) c
  messages : ∀ message ∈ s.sent, message.call < s.calls.length ∧
    message.text = s.sink.formatMessage message.event.syslog
  chain : Verifies env.crypto env.hmacKey (genesis env) (s.sent.map SyslogMessage.event)

/-- No call takes events while another one has not returned. -/
def Apart (s : SyslogLog) : SyslogInput → Prop
  | .write _ => JsNumber.le s.sink.flushSize (s.sink.buffer.length + 1 : Nat) = true →
      ∀ c ∈ s.calls, c.returned = true
  | .flush => s.sink.buffer ≠ [] → ∀ c ∈ s.calls, c.returned = true
  | .settle _ _ => True

/-- The events are sent in the order in which they were written. -/
def InOrder (s : SyslogLog) : Prop :=
  contents s.sent ++ (waiting s ++ s.sink.buffer).map untagged = s.written.map untagged

/-! ### Messages of a call -/

variable {env : SyslogEnv}

theorem ofCall_append (sent : List SyslogMessage) (message : SyslogMessage) (call : Nat) :
    ofCall (sent ++ [message]) call =
      ofCall sent call ++ if message.call = call then [message] else [] := by
  rw [ofCall, List.filter_append, List.filter_singleton]
  simp only [ofCall, Bool.cond_decide]

theorem ofCall_replace (front back : List SyslogMessage) (message : SyslogMessage)
    (ok : Option Bool) (call : Nat) :
    ofCall (front ++ { message with ok } :: back) call =
      if message.call = call then ofCall front call ++ { message with ok } :: ofCall back call
      else ofCall (front ++ message :: back) call := by
  simp only [ofCall, List.filter_append, List.filter_cons, decide_eq_true_eq]
  split <;> rfl

theorem flatMap_events_set {calls : List SyslogFlush} {call : Nat} {c : SyslogFlush}
    (hc : calls[call]? = some c) (c' : SyslogFlush) (hevents : c'.events = c.events) :
    (calls.set call c').flatMap SyslogFlush.events = calls.flatMap SyslogFlush.events := by
  obtain ⟨front, back, rfl, rfl⟩ := Lists.exists_split hc
  simp [hevents]

theorem modify_eq_set {calls : List SyslogFlush} {call : Nat} {c : SyslogFlush}
    (hc : calls[call]? = some c) (f : SyslogFlush → SyslogFlush) :
    calls.modify call f = calls.set call (f c) := by
  obtain ⟨front, back, rfl, rfl⟩ := Lists.exists_split hc
  rw [List.modify_eq_take_cons_drop (by simp)]
  simp

/-! ### The invariant -/

/-- The hash of the sink is that of the last message. -/
structure Inv (env : SyslogEnv) (s : SyslogLog) : Prop extends Accounted env s where
  lastHash : lastTag chainHash (genesis env) (s.sent.map SyslogMessage.event) = s.sink.lastHash

/-- A call is at the head of its loop: it waits for no message and has not returned. -/
structure Looping (own : List SyslogMessage) (c : SyslogFlush) : Prop where
  events : contents own ++ c.rest.map untagged = c.events.map untagged
  allOk : c.allOk = own.all fun message => !message.lost
  pending : own.countP SyslogMessage.pending = 0
  returned : c.returned = false

/-- The same of a sink whose call `call` is at the head of its loop. -/
structure AtHead (env : SyslogEnv) (s : SyslogLog) (call : Nat) : Prop where
  written : s.calls.flatMap SyslogFlush.events ++ s.sink.buffer = s.written
  own : ∃ c, s.calls[call]? = some c ∧ Looping (ofCall s.sent call) c
  others : ∀ other ≠ call, ∀ c, s.calls[other]? = some c → Tells (ofCall s.sent other) c
  messages : ∀ message ∈ s.sent, message.call < s.calls.length ∧
    message.text = s.sink.formatMessage message.event.syslog
  chain : Verifies env.crypto env.hmacKey (genesis env) (s.sent.map SyslogMessage.event)
  lastHash : lastTag chainHash (genesis env) (s.sent.map SyslogMessage.event) = s.sink.lastHash

/-- A call that sends its next event waits for this message. -/
theorem Looping.send {own : List SyslogMessage} {c : SyslogFlush} {event : AuditEvent}
    {rest : List AuditEvent} {message : SyslogMessage} (h : Looping own c)
    (hrest : c.rest = event :: rest) (hevent : message.event.untagged = event.untagged)
    (hok : message.ok = none) : Tells (own ++ [message]) { c with rest } where
  events := by
    have hevents := h.events
    rw [hrest] at hevents
    simpa [contents, hevent] using hevents
  allOk := by simp [h.allOk, SyslogMessage.lost, hok]
  pending := by simp [List.countP_append, h.pending, h.returned, SyslogMessage.pending, hok]
  rest hreturned := by
    rw [h.returned] at hreturned
    cases hreturned

theorem Looping.return {own : List SyslogMessage} {c : SyslogFlush} (h : Looping own c)
    (hrest : c.rest = []) : Tells own { c with returned := true } :=
  ⟨h.events, h.allOk, h.pending, fun _ => hrest⟩

theorem proceed_nil {s : SyslogLog} {call : Nat} {c : SyslogFlush}
    (hc : s.calls[call]? = some c) (hrest : c.rest = []) :
    proceed env s call = { s with calls := s.calls.set call { c with returned := true } } := by
  simp only [proceed, hc, hrest]

theorem proceed_cons {s : SyslogLog} {call : Nat} {c : SyslogFlush} {event : AuditEvent}
    {rest : List AuditEvent} (hc : s.calls[call]? = some c) (hrest : c.rest = event :: rest) :
    proceed env s call =
      let event := event.sealed env.crypto env.hmacKey s.sink.lastHash
      { s with
        sink := { s.sink with lastHash := event.chainHash }
        calls := s.calls.set call { c with rest }
        sent := s.sent ++ [{ event, text := s.sink.formatMessage event.syslog, call }] } := by
  simp only [proceed, hc, hrest]

theorem proceed_inv {s : SyslogLog} {call : Nat} (h : AtHead env s call) :
    Inv env (proceed env s call) := by
  obtain ⟨c, hc, hlooping⟩ := h.own
  have hlt : call < s.calls.length := (List.getElem?_eq_some_iff.mp hc).1
  cases hrest : c.rest with
  | nil =>
    rw [proceed_nil hc hrest]
    refine ⟨⟨?_, fun other c' hc' => ?_, ?_, h.chain⟩, h.lastHash⟩
    · dsimp only
      rw [flatMap_events_set hc { c with returned := true } rfl, h.written]
    · by_cases hother : other = call
      · subst hother
        rw [List.getElem?_set_self hlt] at hc'
        obtain rfl := Option.some.inj hc'
        exact hlooping.return hrest
      · rw [List.getElem?_set_ne (Ne.symm hother)] at hc'
        exact h.others other hother c' hc'
    · simpa using h.messages
  | cons event rest =>
    rw [proceed_cons hc hrest]
    refine ⟨⟨?_, fun other c' hc' => ?_, ?_, ?_⟩, ?_⟩
    · dsimp only
      rw [flatMap_events_set hc { c with rest } rfl, h.written]
    · rw [ofCall_append]
      by_cases hother : other = call
      · subst hother
        rw [List.getElem?_set_self hlt] at hc'
        obtain rfl := Option.some.inj hc'
        rw [if_pos rfl]
        exact hlooping.send hrest rfl rfl
      · rw [List.getElem?_set_ne (Ne.symm hother)] at hc'
        rw [if_neg (Ne.symm hother), List.append_nil]
        exact h.others other hother c' hc'
    · rw [List.length_set]
      refine List.forall_mem_append.mpr ⟨h.messages, ?_⟩
      exact List.forall_mem_singleton.mpr ⟨hlt, rfl⟩
    · rw [List.map_append, Verifies, linked_append, h.lastHash]
      exact ⟨h.chain, rfl, trivial⟩
    · rw [List.map_append, lastTag_append]
      rfl

theorem push_inv {s : SyslogLog} (h : Inv env s) (event : AuditEvent) :
    Inv env (s.push event) where
  written := by simp [push, ← h.written]
  calls := h.calls
  messages := h.messages
  chain := h.chain
  lastHash := h.lastHash

theorem splice_atHead {s : SyslogLog} (h : Inv env s) : AtHead env s.splice s.calls.length := by
  have hnew : (s.calls ++ [{ events := s.sink.buffer, rest := s.sink.buffer }])[s.calls.length]? =
      some { events := s.sink.buffer, rest := s.sink.buffer } := by simp
  have hnone : ofCall s.sent s.calls.length = [] := by
    apply List.filter_eq_nil_iff.mpr
    intro message hmessage hcall
    have hlt := (h.messages message hmessage).1
    rw [of_decide_eq_true hcall] at hlt
    exact Nat.lt_irrefl _ hlt
  refine ⟨?_, ⟨_, hnew, ?_⟩, fun other hother c hc => ?_, fun message hmessage => ?_, h.chain,
    h.lastHash⟩
  · simp [splice, ← h.written]
  · dsimp only [splice]
    rw [hnone]
    exact ⟨rfl, rfl, rfl, rfl⟩
  · refine h.calls other c ?_
    rw [splice, List.getElem?_append] at hc
    split at hc
    · exact hc
    · have hsingle := (List.getElem?_eq_some_iff.mp hc).1
      rw [List.length_singleton] at hsingle
      omega
  · obtain ⟨hlt, htext⟩ := h.messages message hmessage
    refine ⟨?_, htext⟩
    rw [splice, List.length_append]
    omega

theorem flush_inv {s : SyslogLog} (h : Inv env s) : Inv env (flush env s) := by
  rw [flush]
  split
  · exact h
  · exact proceed_inv (splice_atHead h)

/-- A call that waits for its message gets to the head of its loop by the answer. -/
theorem Tells.looping {front back : List SyslogMessage} {message : SyslogMessage}
    {c : SyslogFlush} (h : Tells (front ++ message :: back) c) (hpending : message.pending = true)
    (ok : Bool) :
    Looping (front ++ { message with ok := some ok } :: back) { c with allOk := c.allOk && ok } := by
  have hcount := h.pending
  simp only [List.countP_append, List.countP_cons, hpending, if_true] at hcount
  have hreturned : c.returned = false := by
    cases hr : c.returned with
    | false => rfl
    | true =>
      rw [hr, if_pos rfl] at hcount
      omega
  rw [hreturned, if_neg Bool.false_ne_true] at hcount
  have hnot : SyslogMessage.pending { message with ok := some ok } = false := rfl
  have hunanswered : message.lost = false := by
    rw [SyslogMessage.pending, Option.isNone_iff_eq_none] at hpending
    simp [SyslogMessage.lost, hpending]
  refine ⟨?_, ?_, ?_, hreturned⟩
  · have hevents := h.events
    simpa [contents] using hevents
  · have hok : (!SyslogMessage.lost { message with ok := some ok }) = ok := by
      cases ok <;> rfl
    rw [h.allOk, List.all_append, List.all_append, List.all_cons, List.all_cons, hok, hunanswered]
    cases ok <;> simp
  · rw [List.countP_append, List.countP_cons, hnot]
    simp only [Bool.false_eq_true, if_false]
    omega

theorem resolve_atHead {s : SyslogLog} (h : Inv env s) {i : Nat} {message : SyslogMessage}
    (hmessage : s.sent[i]? = some message) (hpending : message.pending = true) (ok : Bool) :
    AtHead env (s.resolve i message ok) message.call := by
  obtain ⟨front, back, hsent, rfl⟩ := Lists.exists_split hmessage
  have hset : s.sent.set front.length { message with ok := some ok } =
      front ++ { message with ok := some ok } :: back := by simp [hsent]
  have hmap : (front ++ { message with ok := some ok } :: back).map SyslogMessage.event =
      s.sent.map SyslogMessage.event := by simp [hsent]
  have hlt : message.call < s.calls.length := (h.messages message (by simp [hsent])).1
  obtain ⟨c, hc⟩ : ∃ c, s.calls[message.call]? = some c := ⟨_, List.getElem?_eq_getElem hlt⟩
  have htells := h.calls message.call _ hc
  have hown : ofCall s.sent message.call =
      ofCall front message.call ++ message :: ofCall back message.call := by
    simp [hsent, ofCall]
  rw [resolve, hset, modify_eq_set hc]
  refine ⟨?_, ⟨_, List.getElem?_set_self hlt, ?_⟩, fun other hother c' hc' => ?_, ?_, ?_, ?_⟩
  · dsimp only
    rw [flatMap_events_set hc { c with allOk := c.allOk && ok } rfl, h.written]
  · rw [ofCall_replace, if_pos rfl]
    rw [hown] at htells
    exact htells.looping hpending ok
  · rw [ofCall_replace, if_neg (Ne.symm hother), ← hsent]
    rw [List.getElem?_set_ne (Ne.symm hother)] at hc'
    exact h.calls other c' hc'
  · rw [List.length_set]
    exact Lists.forall_mem_replace (hsent ▸ h.messages) (h.messages message (by simp [hsent]))
  · simpa only [hmap] using h.chain
  · simpa only [hmap] using h.lastHash

theorem settle_inv {s : SyslogLog} (h : Inv env s) (i : Nat) (ok : Bool) :
    Inv env (step env s (.settle i ok)) := by
  rw [step]
  split
  · exact h
  next message hmessage =>
  split
  · next hpending => exact proceed_inv (resolve_atHead h hmessage hpending ok)
  · exact h

theorem step_inv {s : SyslogLog} {i : SyslogInput} (h : Inv env s) : Inv env (step env s i) := by
  cases i with
  | write event =>
    have hpush := push_inv h event
    rw [step]
    split
    · exact flush_inv hpush
    · exact hpush
  | flush => exact flush_inv h
  | settle i ok => exact settle_inv h i ok

theorem init_inv (config : SyslogAuditSinkConfig) : Inv env (init env config) where
  written := rfl
  calls _ _ hc := nomatch hc
  messages := List.forall_mem_nil _
  chain := trivial
  lastHash := rfl

theorem run_inv (env : SyslogEnv) (config : SyslogAuditSinkConfig) (inputs : List SyslogInput) :
    Run.AllStates (step env) (Inv env) (init env config) inputs :=
  Run.allStates_of_forall (fun _ _ => step_inv) (init_inv config)

/-- However the calls of `flush` overlap and whatever becomes of the messages, each call sends its
events in their order, one at a time, and all messages together are one chain. -/
theorem syslog_accounted (env : SyslogEnv) (config : SyslogAuditSinkConfig)
    (inputs : List SyslogInput) :
    Run.AllStates (step env) (Accounted env) (init env config) inputs :=
  (run_inv env config inputs).mono fun _ h => h.toAccounted

/-! ### Messages that do not arrive -/

/-- The messages that arrived are an initial part of all. -/
def WithoutGap (s : SyslogLog) : Prop :=
  s.sent.Pairwise fun earlier later => later.arrived = true → earlier.arrived = true

theorem Accounted.arrivals_iff {s : SyslogLog} (h : Accounted env s)
    (hdigest : Separating env.crypto env.hmacKey) :
    Verifies env.crypto env.hmacKey (genesis env) (arrivals s) ↔ WithoutGap s := by
  have hsingle (messages : List SyslogMessage) :
      messages.map SyslogMessage.event = messages.flatMap fun message => [message.event] :=
    List.map_eq_flatMap
  have hchain := h.chain
  rw [hsingle] at hchain
  rw [arrivals, hsingle]
  exact verifies_filter_iff hdigest hchain fun _ _ => List.cons_ne_nil _ _

/-- Where no two texts have one digest, what arrived replays from the first hash exactly if no
message arrived that was sent after one that did not. -/
theorem arrivals_verify_iff (env : SyslogEnv) (config : SyslogAuditSinkConfig)
    (inputs : List SyslogInput) (hdigest : Separating env.crypto env.hmacKey) :
    Run.AllStates (step env) (fun s =>
      Verifies env.crypto env.hmacKey (genesis env) (arrivals s) ↔ WithoutGap s)
      (init env config) inputs :=
  (run_inv env config inputs).mono fun _ h => h.arrivals_iff hdigest

theorem arrivals_verify_iff_gap : Run.AllStates (step { crypto := digits }) (fun s =>
      Verifies digits none (genesis { crypto := digits }) (arrivals s) ↔ WithoutGap s)
    (init { crypto := digits } { flushInterval := 1 })
    [.write blankEvent, .settle 0 false, .write blankEvent, .settle 1 true] :=
  arrivals_verify_iff { crypto := digits } { flushInterval := 1 } _ separating_digits

/-! ### Calls that do not overlap -/

/-- Only the last call may still have something to send. -/
structure Sequential (s : SyslogLog) : Prop where
  returned : ∀ c ∈ s.calls.dropLast, c.returned = true
  order : contents s.sent ++ (waiting s).map untagged =
    (s.calls.flatMap SyslogFlush.events).map untagged

theorem Accounted.inOrder {s : SyslogLog} (h : Accounted env s) (hs : Sequential s) : InOrder s := by
  rw [InOrder, ← h.written, List.map_append, List.map_append, ← hs.order, List.append_assoc]

theorem eq_concat_of_not_returned {calls : List SyslogFlush} {call : Nat} {c : SyslogFlush}
    (h : ∀ c ∈ calls.dropLast, c.returned = true) (hc : calls[call]? = some c)
    (hreturned : c.returned = false) : ∃ front, calls = front ++ [c] ∧ front.length = call := by
  obtain ⟨front, back, rfl, rfl⟩ := Lists.exists_split hc
  cases back with
  | nil => exact ⟨front, rfl, rfl⟩
  | cons d back =>
    have hmem : c ∈ (front ++ c :: d :: back).dropLast := by simp
    rw [h c hmem] at hreturned
    cases hreturned

theorem proceed_sequential {s : SyslogLog} {call : Nat} (h : AtHead env s call)
    (hs : Sequential s) : Sequential (proceed env s call) := by
  obtain ⟨c, hc, hlooping⟩ := h.own
  obtain ⟨front, hcalls, rfl⟩ := eq_concat_of_not_returned hs.returned hc hlooping.returned
  have hfront : ∀ c ∈ front, c.returned = true := by
    have hreturned := hs.returned
    rwa [hcalls, List.dropLast_concat] at hreturned
  have hset (c' : SyslogFlush) : s.calls.set front.length c' = front ++ [c'] := by simp [hcalls]
  have hevents := hs.order
  rw [waiting, hcalls] at hevents
  cases hrest : c.rest with
  | nil =>
    rw [proceed_nil hc hrest, hset]
    refine ⟨?_, ?_⟩
    · rwa [List.dropLast_concat]
    · simpa [waiting, hrest] using hevents
  | cons event rest =>
    rw [proceed_cons hc hrest, hset]
    have hnothing : front.flatMap SyslogFlush.rest = [] := by
      apply List.flatMap_eq_nil_iff.mpr
      intro d hd
      obtain ⟨i, hi, hget⟩ := List.mem_iff_getElem.mp hd
      have hother : s.calls[i]? = some d := by
        rw [hcalls, List.getElem?_append_left hi, List.getElem?_eq_getElem hi, hget]
      exact (h.others i (Nat.ne_of_lt hi) d hother).rest (hfront d hd)
    refine ⟨?_, ?_⟩
    · rwa [List.dropLast_concat]
    · have huntagged : (event.sealed env.crypto env.hmacKey s.sink.lastHash).untagged =
          event.untagged := rfl
      simp only [List.flatMap_append, hnothing, hrest, List.flatMap_singleton, List.nil_append,
        List.map_cons] at hevents
      simp only [waiting, contents, List.flatMap_append, hnothing, List.flatMap_singleton,
        List.nil_append, List.map_append, List.map_singleton, huntagged, List.append_assoc,
        List.singleton_append] at hevents ⊢
      exact hevents

theorem splice_sequential {s : SyslogLog} (hs : Sequential s)
    (hreturned : ∀ c ∈ s.calls, c.returned = true) : Sequential s.splice where
  returned := by rwa [splice, List.dropLast_concat]
  order := by
    have horder := hs.order
    simp only [splice, waiting, List.flatMap_append, List.flatMap_singleton, List.map_append]
      at horder ⊢
    rw [← List.append_assoc, horder]

/-- An answer changes nothing but the value that the call returns. -/
theorem map_calls_resolve {β : Type} {g : SyslogFlush → β}
    (hg : ∀ c : SyslogFlush, ∀ allOk, g { c with allOk } = g c) (s : SyslogLog) (i : Nat)
    (message : SyslogMessage) (ok : Bool) :
    (s.resolve i message ok).calls.map g = s.calls.map g := by
  apply List.ext_getElem?
  intro call
  rw [resolve, List.getElem?_map, List.getElem?_map, List.getElem?_modify]
  cases s.calls[call]? with
  | none => rfl
  | some c => by_cases hcall : message.call = call <;> simp [hcall, hg]

theorem resolve_sequential {s : SyslogLog} {i : Nat} {message : SyslogMessage} (hs : Sequential s)
    (hmessage : s.sent[i]? = some message) (ok : Bool) : Sequential (s.resolve i message ok) where
  returned := by
    have hreturned : ∀ b ∈ (s.calls.map SyslogFlush.returned).dropLast, b = true := by
      rw [← List.map_dropLast]
      exact List.forall_mem_map.mpr hs.returned
    rw [← map_calls_resolve (fun _ _ => rfl) s i message ok, ← List.map_dropLast] at hreturned
    exact List.forall_mem_map.mp hreturned
  order := by
    obtain ⟨front, back, hsent, rfl⟩ := Lists.exists_split hmessage
    have hcontents : contents (s.resolve front.length message ok).sent = contents s.sent := by
      simp [resolve, contents, hsent]
    have hrest : waiting (s.resolve front.length message ok) = waiting s := by
      rw [waiting, waiting, List.flatMap_def, List.flatMap_def, map_calls_resolve fun _ _ => rfl]
    have hevents : (s.resolve front.length message ok).calls.flatMap SyslogFlush.events =
        s.calls.flatMap SyslogFlush.events := by
      rw [List.flatMap_def, List.flatMap_def, map_calls_resolve fun _ _ => rfl]
    rw [hcontents, hrest, hevents, hs.order]

theorem step_sequential {s : SyslogLog} {i : SyslogInput} (h : Inv env s ∧ Sequential s)
    (hi : Apart s i) : Inv env (step env s i) ∧ Sequential (step env s i) := by
  obtain ⟨h, hs⟩ := h
  refine ⟨step_inv h, ?_⟩
  have hflush {s : SyslogLog} (h : Inv env s) (hs : Sequential s)
      (hi : s.sink.buffer ≠ [] → ∀ c ∈ s.calls, c.returned = true) : Sequential (flush env s) := by
    rw [flush]
    split
    · exact hs
    · next hbuffer =>
      refine proceed_sequential (splice_atHead h) (splice_sequential hs (hi fun hnil => ?_))
      rw [hnil] at hbuffer
      exact hbuffer rfl
  cases i with
  | write event =>
    rw [step]
    split
    · next hfull =>
      refine hflush (push_inv h event) ⟨hs.returned, hs.order⟩ fun _ => hi ?_
      simpa [push] using hfull
    · exact ⟨hs.returned, hs.order⟩
  | flush => exact hflush h hs hi
  | settle i ok =>
    rw [step]
    split
    · exact hs
    next message hmessage =>
    split
    · next hpending =>
      exact proceed_sequential (resolve_atHead h hmessage hpending ok)
        (resolve_sequential hs hmessage ok)
    · exact hs

/-- As long as no call takes events before the one in front of it has returned, the events are sent
in the order in which they were written. -/
theorem syslog_in_order (env : SyslogEnv) (config : SyslogAuditSinkConfig)
    (inputs : List SyslogInput) (h : Run.AllSteps (step env) Apart (init env config) inputs) :
    Run.AllStates (step env) InOrder (init env config) inputs := by
  have hinit : Sequential (init env config) := ⟨List.forall_mem_nil _, rfl⟩
  exact (Run.allStates_of_invariant (fun _ _ => step_sequential) ⟨init_inv config, hinit⟩ h).mono
    fun _ hs => hs.1.inOrder hs.2

theorem syslog_in_order_run : Run.AllStates (step { crypto := transparent }) InOrder
    (init { crypto := transparent } { flushInterval := 2 })
    [.write blankEvent, .write { blankEvent with id := "2" }, .write blankEvent, .settle 0 true,
      .settle 1 false, .flush] := by
  apply syslog_in_order
  refine ⟨?_, ?_, ?_, trivial, trivial, ?_, trivial⟩
  · exact fun _ => List.forall_mem_nil _
  · exact fun _ => List.forall_mem_nil _
  · exact fun hfull => absurd hfull (by decide)
  · exact fun _ => by decide

/-- The third event overtakes the second, which waits behind the first. -/
example : ((Run.run (step { crypto := transparent })
    (init { crypto := transparent } { flushInterval := 2 })
    [.write { blankEvent with id := "1" }, .write { blankEvent with id := "2" },
      .write { blankEvent with id := "3" }, .flush, .settle 0 true]).sent.map fun message =>
        message.event.id) = ["1", "3", "2"] := by decide

end SyslogLog

end KirkForge
