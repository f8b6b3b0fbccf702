import KirkForge.Orchestrator.HealthServer
import KirkForge.Theory.Doubles
import KirkForge.Theory.Run

/-!
# The limit on request bodies

`consumeAndLimitBody` (`health-server/rate-limit.ts`) looks at the headers of a request and then at
its events as they come. The promise keeps the first value that it is resolved with;
`consumeAndLimitBody_settles` says which that is, and what the events after it still do.
-/

namespace KirkForge

/-- `parseInt(s, 10)` -/
def parseInt (s : String) : JsNumber :=
  let cs := Text.trimStart s.toList
  let negative := cs.head? = some '-'
  let cs := if cs.head? = some '-' ∨ cs.head? = some '+' then cs.tail else cs
  match cs.takeWhile Char.isDigit with
  | [] => .nan
  | digits =>
    let n := JsNumber.ofRead (JsNumber.double (Json.natOfDigits digits))
    if negative then -n else n

namespace BodyLimit

/-- The method and the headers that are looked at. -/
structure RequestHead where
  method : Option String := none
  transferEncoding : Option String := none
  contentLength : Option String := none

inductive BodyEvent
  | data (length : Nat)
  | «end»
  | error
  deriving DecidableEq, Repr

def SECURITY_HEADERS : List (String × String) :=
  [("Content-Security-Policy", "default-src 'none'; frame-ancestors 'none'"),
    ("X-Content-Type-Options", "nosniff"), ("X-Frame-Options", "DENY"), ("X-XSS-Protection", "0"),
    ("Referrer-Policy", "no-referrer"), ("Cache-Control", "no-store, no-cache, must-revalidate"),
    ("Strict-Transport-Security", "max-age=63072000; includeSubDomains; preload")]

structure BodyResponse where
  headers : List (String × String)
  code : String
  message : String
  status : Nat
  requestId : String
  timestamp : String
  deriving DecidableEq

/-- The limit, the request and the time at which a response is written. -/
structure BodyCall where
  maxBodyBytes : JsNumber
  head : RequestHead
  correlationId : String
  timestamp : String

/-- What a call has done so far. -/
structure BodyReading where
  /-- The handlers of the events are there. -/
  listening : Bool := false
  received : Nat := 0
  exceeded : Bool := false
  /-- The value of the promise. -/
  resolved : Option Bool := none
  authFailures : Nat := 0
  responses : List BodyResponse := []
  destroyed : Bool := false
  deriving DecidableEq

def BodyReading.resolve (s : BodyReading) (value : Bool) : BodyReading :=
  { s with resolved := s.resolved.or (some value) }

namespace BodyCall

variable (c : BodyCall)

def contentLength : JsNumber := parseInt (c.head.contentLength.getD "0")

def hasBody : Bool :=
  let method := (c.head.method.map HealthServer.toUpperCase).getD "GET"
  let transferEncoding := Text.toLowerCase (c.head.transferEncoding.getD "")
  method = "POST" || method = "PUT" || method = "PATCH" ||
    Text.includes transferEncoding "chunked" || JsNumber.gt c.contentLength 0

def tooLarge : BodyResponse where
  headers := ("Content-Type", "application/json") :: SECURITY_HEADERS
  code := "PAYLOAD_TOO_LARGE"
  message := "Request body exceeds maximum size of " ++ c.maxBodyBytes.text ++ " bytes"
  status := 413
  requestId := c.correlationId
  timestamp := c.timestamp

/-- The response with status 413, and the end of the connection. -/
def reject (s : BodyReading) : BodyReading :=
  { s with
    authFailures := s.authFailures + 1
    responses := s.responses ++ [c.tooLarge]
    destroyed := true }.resolve false

/-- `received > maxBodyBytes` -/
def Exceeds (received : Nat) : Prop := JsNumber.gt received c.maxBodyBytes = true

instance (received : Nat) : Decidable (c.Exceeds received) := inferInstanceAs (Decidable (_ = _))

def start : BodyReading :=
  if !c.hasBody then BodyReading.resolve {} true
  else if JsNumber.gt c.contentLength c.maxBodyBytes then c.reject {}
  else { listening := true }

def step (s : BodyReading) (e : BodyEvent) : BodyReading :=
  if !s.listening then s
  else match e with
    | .data length =>
      if s.exceeded then s
      else
        let s := { s with received := s.received + length }
        if c.Exceeds s.received then c.reject { s with exceeded := true } else s
    | .end => if !s.exceeded then s.resolve true else s
    | .error => if !s.exceeded then s.resolve false else s

/-- The call after the events that have come. -/
def consume (events : List BodyEvent) : BodyReading := Run.run c.step c.start events

end BodyCall

def BodyEvent.size : BodyEvent → Nat
  | .data length => length
  | _ => 0

/-- The size of all chunks. -/
def total (events : List BodyEvent) : Nat := (events.map BodyEvent.size).sum

theorem total_append (events more : List BodyEvent) :
    total (events ++ more) = total events + total more := by
  rw [total, List.map_append, List.sum_append, total, total]

theorem total_concat (events : List BodyEvent) (e : BodyEvent) :
    total (events ++ [e]) = total events + e.size := by
  rw [total_append, total, total, List.map_singleton, List.sum_singleton]

namespace BodyCall

variable {c : BodyCall} {events before after : List BodyEvent} {e : BodyEvent}

/-! ### Until something decides -/

/-- Only chunks have come, and they do not exceed the limit. -/
def Undecided (c : BodyCall) (events : List BodyEvent) : Prop :=
  (∀ e ∈ events, ∃ length, e = .data length) ∧ (events = [] ∨ ¬c.Exceeds (total events))

/-- What an event decides after a number of bytes. -/
def decides (c : BodyCall) (received : Nat) : BodyEvent → Option Bool
  | .data length => if c.Exceeds (received + length) then some false else none
  | .end => some true
  | .error => some false

theorem Exceeds.mono {m n : Nat} (h : c.Exceeds m) (hmn : m ≤ n) : c.Exceeds n :=
  JsNumber.gt_natCast_mono h hmn

theorem undecided_nil : c.Undecided [] := ⟨nofun, .inl rfl⟩

/-- Nothing is decided as long as no event decides. -/
theorem undecided_concat :
    c.Undecided (events ++ [e]) ↔ c.Undecided events ∧ c.decides (total events) e = none := by
  constructor
  · rintro ⟨hchunks, hlimit⟩
    obtain ⟨length, rfl⟩ := hchunks e (List.mem_append_right _ List.mem_cons_self)
    have hwithin :=
      hlimit.resolve_left (List.append_ne_nil_of_right_ne_nil _ (List.cons_ne_nil _ _))
    rw [total_concat] at hwithin
    refine ⟨⟨fun e' he' => hchunks e' (List.mem_append_left _ he'), .inr fun h => ?_⟩,
      if_neg hwithin⟩
    exact hwithin (h.mono (Nat.le_add_right _ _))
  · rintro ⟨⟨hchunks, -⟩, hnone⟩
    cases e with
    | data length =>
      refine ⟨fun e' he' => ?_, .inr fun h => ?_⟩
      · obtain he' | he' := List.mem_append.mp he'
        · exact hchunks e' he'
        · exact ⟨length, List.mem_singleton.mp he'⟩
      · have hex : c.Exceeds (total events + length) := by
          rwa [total_concat] at h
        rw [decides, if_pos hex] at hnone
        cases hnone
    | «end» | error => cases hnone

/-- Either nothing is decided, or there is a first event that decides. -/
theorem undecided_or (c : BodyCall) (events : List BodyEvent) : c.Undecided events ∨
    ∃ before e after value, events = before ++ e :: after ∧ c.Undecided before ∧
      c.decides (total before) e = some value := by
  induction events using List.reverseRecOn with
  | nil => exact .inl undecided_nil
  | append_singleton events e ih =>
    obtain h | ⟨before, e', after, value, rfl, hbefore, hvalue⟩ := ih
    · cases hvalue : c.decides (total events) e with
      | none => exact .inl (undecided_concat.mpr ⟨h, hvalue⟩)
      | some value => exact .inr ⟨events, e, [], value, rfl, h, hvalue⟩
    · refine .inr ⟨before, e', after ++ [e], value, ?_, hbefore, hvalue⟩
      rw [List.append_assoc, List.cons_append]

theorem consume_concat (events : List BodyEvent) (e : BodyEvent) :
    c.consume (events ++ [e]) = c.step (c.consume events) e := by
  rw [consume, Run.run, List.foldl_concat]
  rfl

theorem consume_append (events more : List BodyEvent) :
    c.consume (events ++ more) = Run.run c.step (c.consume events) more := by
  rw [consume, Run.run, List.foldl_append]
  rfl

/-! ### What the handlers do -/

/-- The handlers of the events are there. -/
def Listens (c : BodyCall) : Prop :=
  c.hasBody = true ∧ JsNumber.gt c.contentLength c.maxBodyBytes = false

theorem start_eq (h : c.Listens) : c.start = { listening := true } := by
  rw [start, h.1, h.2]
  rfl

/-- The value of a promise does not change. -/
theorem step_resolved {s : BodyReading} {value : Bool} (h : s.resolved = some value)
    (e : BodyEvent) : (c.step s e).resolved = some value := by
  have hresolve (s : BodyReading) (h : s.resolved = some value) (v : Bool) :
      (s.resolve v).resolved = some value := by
    rw [BodyReading.resolve, h]
    rfl
  unfold step
  split
  · exact h
  · cases e with
    | data length =>
      dsimp only
      split
      · exact h
      · split
        · exact hresolve _ h false
        · exact h
    | «end» | error =>
      dsimp only
      split
      · exact hresolve s h _
      · exact h

theorem run_resolved {s : BodyReading} {value : Bool} (h : s.resolved = some value)
    (events : List BodyEvent) : (Run.run c.step s events).resolved = some value :=
  Run.run_invariant (I := fun s : BodyReading => s.resolved = some value)
    (fun _ e h => step_resolved h e) events h

/-- As long as nothing is decided the sizes are added. -/
theorem consume_of_undecided (hlistens : c.Listens) (h : c.Undecided events) :
    c.consume events = { listening := true, received := total events } := by
  induction events using List.reverseRecOn with
  | nil => exact start_eq hlistens
  | append_singleton events e ih =>
    obtain ⟨hevents, hnone⟩ := undecided_concat.mp h
    rw [consume_concat, ih hevents, total_concat]
    cases e with
    | data length =>
      have hwithin : ¬c.Exceeds (total events + length) := fun hex => by
        rw [decides, if_pos hex] at hnone
        cases hnone
      exact if_neg hwithin
    | «end» | error => cases hnone

/-- The first event that decides resolves the promise. -/
theorem consume_of_decides (hlistens : c.Listens) (hbefore : c.Undecided before) {value : Bool}
    (hvalue : c.decides (total before) e = some value) (after : List BodyEvent) :
    (c.consume (before ++ e :: after)).resolved = some value := by
  rw [consume_append, Run.run_cons, consume_of_undecided hlistens hbefore]
  apply run_resolved
  cases e with
  | data length =>
    by_cases hex : c.Exceeds (total before + length)
    · rw [decides, if_pos hex] at hvalue
      rw [← hvalue]
      exact congrArg BodyReading.resolved (if_pos hex)
    · rw [decides, if_neg hex] at hvalue
      cases hvalue
  | «end» | error => exact hvalue

/-- The value of the promise is what the first event that decides says. -/
theorem resolved_iff (hlistens : c.Listens) {value : Bool} :
    (c.consume events).resolved = some value ↔ ∃ before e after, events = before ++ e :: after ∧
      c.Undecided before ∧ c.decides (total before) e = some value := by
  constructor
  · intro h
    obtain hun | ⟨before, e, after, value', rfl, hbefore, hvalue⟩ := undecided_or c events
    · rw [consume_of_undecided hlistens hun] at h
      cases h
    · rw [consume_of_decides hlistens hbefore hvalue] at h
      cases h
      exact ⟨before, e, after, rfl, hbefore, hvalue⟩
  · rintro ⟨before, e, after, rfl, hbefore, hvalue⟩
    exact consume_of_decides hlistens hbefore hvalue after

theorem resolved_eq_none_iff (hlistens : c.Listens) :
    (c.consume events).resolved = none ↔ c.Undecided events := by
  constructor
  · intro h
    obtain hun | ⟨before, e, after, value, rfl, hbefore, hvalue⟩ := undecided_or c events
    · exact hun
    · rw [consume_of_decides hlistens hbefore hvalue] at h
      cases h
  · intro h
    rw [consume_of_undecided hlistens h]

theorem decides_eq_some_true {received : Nat} : c.decides received e = some true ↔ e = .end := by
  cases e with
  | data length =>
    rw [decides]
    split <;> exact ⟨nofun, nofun⟩
  | «end» => exact ⟨fun _ => rfl, fun _ => rfl⟩
  | error => exact ⟨nofun, nofun⟩

theorem decides_eq_some_false {received : Nat} : c.decides received e = some false ↔
    e = .error ∨ ∃ length, e = .data length ∧ c.Exceeds (received + length) := by
  cases e with
  | data length =>
    rw [decides]
    constructor
    · intro h
      by_cases hex : c.Exceeds (received + length)
      · exact .inr ⟨length, rfl, hex⟩
      · rw [if_neg hex] at h
        cases h
    · rintro (h | ⟨length', h, hex⟩)
      · cases h
      · cases h
        exact if_pos hex
  | «end» =>
    constructor
    · intro h
      cases h
    · rintro (h | ⟨length, h, -⟩) <;> cases h
  | error => exact ⟨fun _ => .inl rfl, fun _ => rfl⟩

/-! ### What events do afterwards -/

/-- The response is sent once, and after it the handlers do nothing. -/
structure Sound (c : BodyCall) (s : BodyReading) : Prop where
  responses : s.responses = if s.destroyed then [c.tooLarge] else []
  exceeded : s.listening = true → s.exceeded = s.destroyed

theorem sound_start : c.Sound c.start := by
  unfold start
  split
  · exact ⟨rfl, nofun⟩
  · split
    · exact ⟨rfl, nofun⟩
    · exact ⟨rfl, fun _ => rfl⟩

theorem step_sound {s : BodyReading} (h : c.Sound s) (e : BodyEvent) : c.Sound (c.step s e) := by
  unfold step
  split
  · exact h
  rename_i hlistening
  have hdestroyed := h.exceeded (by simpa using hlistening)
  cases e with
  | data length =>
    dsimp only
    split
    · exact h
    rename_i hexceeded
    have hopen : s.destroyed = false := by simpa [hdestroyed] using hexceeded
    split
    · refine ⟨?_, fun _ => rfl⟩
      change s.responses ++ [c.tooLarge] = [c.tooLarge]
      rw [h.responses, hopen]
      rfl
    · exact ⟨h.responses, h.exceeded⟩
  | «end» | error =>
    dsimp only
    split
    · exact ⟨h.responses, h.exceeded⟩
    · exact h

theorem consume_sound (events : List BodyEvent) : c.Sound (c.consume events) :=
  Run.run_invariant (I := fun s : BodyReading => c.Sound s) (fun _ e h => step_sound h e) events
    sound_start

theorem responses_length_le (events : List BodyEvent) :
    (c.consume events).responses.length ≤ 1 := by
  rw [(consume_sound events).responses]
  split
  · exact le_rfl
  · exact Nat.zero_le 1

/-- A run in which no event does anything. -/
theorem run_eq_self {s : BodyReading} (events : List BodyEvent)
    (h : ∀ e ∈ events, c.step s e = s) : Run.run c.step s events = s := by
  induction events with
  | nil => rfl
  | cons e events ih =>
    rw [Run.run_cons, h e List.mem_cons_self]
    exact ih fun e' he' => h e' (List.mem_cons_of_mem _ he')

theorem step_of_not_listening {s : BodyReading} (h : s.listening = false) (e : BodyEvent) :
    c.step s e = s := by
  unfold step
  rw [h]
  rfl

theorem step_of_destroyed {s : BodyReading} (hsound : c.Sound s) (h : s.destroyed = true)
    (e : BodyEvent) : c.step s e = s := by
  cases hlistening : s.listening with
  | false => exact step_of_not_listening hlistening e
  | true =>
    have hexceeded := (hsound.exceeded hlistening).trans h
    unfold step
    rw [hlistening, hexceeded]
    cases e <;> rfl

theorem resolve_of_resolved {s : BodyReading} {value : Bool} (h : s.resolved = some value)
    (value' : Bool) : s.resolve value' = s := by
  rw [BodyReading.resolve, h, Option.some_or, ← h]

/-- An end or an error does nothing after the promise is resolved. -/
theorem step_of_resolved {s : BodyReading} {value : Bool} (h : s.resolved = some value)
    (he : ∀ length, e ≠ .data length) : c.step s e = s := by
  unfold step
  split
  · rfl
  · cases e with
    | data length => exact absurd rfl (he length)
    | «end» | error =>
      dsimp only
      rw [resolve_of_resolved h, ite_self]

/-! ### Which value the promise has -/

/-- The promise is resolved whatever comes, with `true` exactly if the body has ended and all its
chunks are within the limit; no event does anything afterwards. -/
structure SettlesOnce (c : BodyCall) : Prop where
  settled : ∀ events, (c.consume events).resolved.isSome
  success : ∀ events, (c.consume events).resolved = some true ↔
    .end ∈ events ∧ ¬c.Exceeds (total events)
  later : ∀ events more, (c.consume events).resolved.isSome →
    c.consume (events ++ more) = c.consume events

/-- A request of the method POST without a declared length, and a limit of ten bytes. -/
def posted : BodyCall where
  maxBodyBytes := 10
  head := { method := some "POST" }
  correlationId := "corr"
  timestamp := "2026-01-01T00:00:00.000Z"

/-- It is not resolved by a chunk, it fails when an error comes before the end, and a chunk after
the end is still counted. A request without a body is resolved before any event. -/
theorem settlesOnce_refuted :
    (¬∀ events, (posted.consume events).resolved.isSome) ∧
      (¬∀ events, (posted.consume events).resolved = some true ↔
        .end ∈ events ∧ ¬posted.Exceeds (total events)) ∧
      (¬∀ events more, (posted.consume events).resolved.isSome →
        posted.consume (events ++ more) = posted.consume events) ∧
      ¬SettlesOnce { posted with head := {} } := by
  refine ⟨fun h => ?_, fun h => ?_, fun h => ?_, fun h => ?_⟩
  · exact absurd (h [.data 3]) (by decide +kernel)
  · exact absurd ((h [.error, .end]).mpr ⟨by decide, by decide⟩) (by decide +kernel)
  · exact absurd (h [.end] [.data 20] (by decide +kernel)) (by decide +kernel)
  · exact absurd ((h.success []).mp (by decide +kernel)).1 (by decide)

/-- What a call does: a request without a body succeeds and a declared length over the limit is
rejected, each before any event and for good; else the first event that decides counts. -/
structure SettlesInOrder (c : BodyCall) : Prop where
  absent : c.hasBody = false → ∀ events, c.consume events = BodyReading.resolve {} true
  declared : c.hasBody = true → JsNumber.gt c.contentLength c.maxBodyBytes = true →
    ∀ events, c.consume events = c.reject {}
  pending : c.Listens → ∀ events, (c.consume events).resolved = none ↔ c.Undecided events
  success : c.Listens → ∀ events, (c.consume events).resolved = some true ↔
    ∃ before after, events = before ++ .end :: after ∧ c.Undecided before
  failure : c.Listens → ∀ events, (c.consume events).resolved = some false ↔
    ∃ before e after, events = before ++ e :: after ∧ c.Undecided before ∧
      (e = .error ∨ ∃ length, e = .data length ∧ c.Exceeds (total before + length))
  kept : ∀ events more value, (c.consume events).resolved = some value →
    (c.consume (events ++ more)).resolved = some value
  later : ∀ events more, (c.consume events).resolved.isSome →
    (∀ e ∈ more, ∀ length, e ≠ .data length) → c.consume (events ++ more) = c.consume events
  rejected : ∀ events more, (c.consume events).destroyed = true →
    c.consume (events ++ more) = c.consume events
  once : ∀ events, (c.consume events).responses.length ≤ 1

theorem consumeAndLimitBody_settles (c : BodyCall) : SettlesInOrder c where
  absent h events := by
    have hstart : c.start = BodyReading.resolve {} true := by
      rw [start, h]
      rfl
    rw [consume, hstart]
    exact run_eq_self events fun e _ => step_of_not_listening rfl e
  declared h hlong events := by
    have hstart : c.start = c.reject {} := by
      rw [start, h, hlong]
      rfl
    rw [consume, hstart]
    exact run_eq_self events fun e _ => step_of_not_listening rfl e
  pending hlistens events := resolved_eq_none_iff hlistens
  success hlistens events := by
    rw [resolved_iff hlistens]
    constructor
    · rintro ⟨before, e, after, rfl, hbefore, hvalue⟩
      obtain rfl := decides_eq_some_true.mp hvalue
      exact ⟨before, after, rfl, hbefore⟩
    · rintro ⟨before, after, rfl, hbefore⟩
      exact ⟨before, .end, after, rfl, hbefore, rfl⟩
  failure hlistens events := by
    rw [resolved_iff hlistens]
    simp only [decides_eq_some_false]
  kept events more value h := by
    rw [consume_append]
    exact run_resolved h more
  later events more h hmore := by
    obtain ⟨value, h⟩ := Option.isSome_iff_exists.mp h
    rw [consume_append]
    exact run_eq_self more fun e he => step_of_resolved h (hmore e he)
  rejected events more h := by
    rw [consume_append]
    exact run_eq_self more fun e _ => step_of_destroyed (consume_sound events) h e
  once := responses_length_le

end BodyCall

end BodyLimit

end KirkForge
