import KirkForge.CoreEvents.EventBus

/-!
# Shutting the event bus down

`shutdown` and `gracefulShutdown` (`core-events/src/index.ts`) beside emissions and handlers. Each
call of `gracefulShutdown` that finds an event in flight waits for a promise of its own, but the bus
keeps one resolver only: a later call takes it over, and the earlier one then waits for its
time-out. The trace records what a caller can see.
-/

namespace KirkForge

/-- A call of `gracefulShutdown`: whether its drain promise is resolved, whether its timer has
fired, and whether it has returned. -/
structure ShutdownCall where
  resolved : Bool := false
  timedOut : Bool := false
  returned : Bool := false
  deriving DecidableEq

inductive BusAction
  /-- The `n`th call of `emit`. -/
  | emitted (n : Nat)
  /-- A handler is called with the event of the `n`th emission. -/
  | invoked (n : Nat) (handler : HandlerId)
  | shutdownRequested
  /-- A call of `gracefulShutdown` returns, and these events are then being processed. -/
  | returned (call : Nat) (timedOut : Bool) (processings : List Processing)

structure ShutdownLog where
  log : BusLog
  /-- The number of calls of `emit`. -/
  emissions : Nat := 0
  /-- The emissions that the runs of `_process` in `log` belong to, in the same order. -/
  sources : List Nat := []
  calls : List ShutdownCall := []
  /-- The call whose promise the resolver that the bus keeps belongs to. -/
  drainResolve : Option Nat := none
  trace : List BusAction := []

inductive ShutdownInput
  | on (kind : EventKind) (handler : HandlerId)
  | unsubscribe (kind : EventKind) (handler : HandlerId)
  | emit (object : EventObject) (now trimNow : Nat)
  | settle (i : Nat) (outcome : HandlerOutcome)
  | drainBuffer
  | shutdown
  | gracefulShutdown
  /-- The timer of this call of `gracefulShutdown` fires. -/
  | timer (call : Nat)
  /-- This call goes on after the race of its promise with its timer. -/
  | resume (call : Nat)

namespace ShutdownLog

variable (env : BusEnv)

def init (options : EventBusOptions) : ShutdownLog := { log := BusLog.init options }

/-- The `nth` emission, with the run of `_process` that it may begin. -/
def emit (s : ShutdownLog) (object : EventObject) (now trimNow : Nat) : ShutdownLog :=
  let log := s.log.step env (.emit object now trimNow)
  let begun := log.processings.drop s.log.processings.length
  { s with
    log
    emissions := s.emissions + 1
    sources := s.sources ++ begun.map fun _ => s.emissions
    trace := s.trace ++ .emitted s.emissions :: begun.map fun p => .invoked s.emissions p.handler }

/-- What the `finally` block of `_process` does for a shutdown. -/
def resolveDrain (s : ShutdownLog) : List ShutdownCall :=
  match s.drainResolve with
  | some call =>
    if s.log.bus.shuttingDown && s.log.bus.inflight = 0 then
      s.calls.modify call fun c => { c with resolved := true }
    else s.calls
  | none => s.calls

def settle (s : ShutdownLog) (i : Nat) (outcome : HandlerOutcome) : ShutdownLog :=
  match s.log.processings[i]?, s.sources[i]? with
  | some p, some n =>
    let log := s.log.step env (.settle i outcome)
    match LiveSet.next (s.log.bus.handlersOf p.object.event.kind) p.place with
    | some (_, handler) => { s with log, trace := s.trace ++ [.invoked n handler] }
    | none =>
      let s' := { s with log, sources := s.sources.eraseIdx i }
      { s' with calls := s'.resolveDrain }
  | _, _ => s

def gracefulShutdown (s : ShutdownLog) : ShutdownLog :=
  let log := s.log.step env .gracefulShutdown
  let trace := s.trace ++ [.shutdownRequested]
  if s.log.bus.inflight = 0 then
    { s with
      log
      calls := s.calls ++ [{ returned := true }]
      trace := trace ++ [.returned s.calls.length false s.log.processings] }
  else { s with log, calls := s.calls ++ [{}], drainResolve := some s.calls.length, trace }

def timer (s : ShutdownLog) (call : Nat) : ShutdownLog :=
  { s with calls := s.calls.modify call fun c => { c with timedOut := true } }

def resume (s : ShutdownLog) (call : Nat) : ShutdownLog :=
  match s.calls[call]? with
  | none => s
  | some c =>
    if !c.returned && (c.resolved || c.timedOut) then
      { s with
        log := { s.log with bus := { s.log.bus with running := false } }
        calls := s.calls.set call { c with returned := true }
        trace := s.trace ++ [.returned call c.timedOut s.log.processings] }
    else s

def step (s : ShutdownLog) : ShutdownInput → ShutdownLog
  | .on kind handler => { s with log := s.log.step env (.on kind handler) }
  | .unsubscribe kind handler => { s with log := s.log.step env (.unsubscribe kind handler) }
  | .emit object now trimNow => s.emit env object now trimNow
  | .settle i outcome => s.settle env i outcome
  | .drainBuffer => { s with log := s.log.step env .drainBuffer }
  | .shutdown =>
    { s with log := s.log.step env .shutdown, trace := s.trace ++ [.shutdownRequested] }
  | .gracefulShutdown => s.gracefulShutdown env
  | .timer call => s.timer call
  | .resume call => s.resume call

end ShutdownLog

end KirkForge

/-!
## What a shutdown of the event bus guarantees

No handler is called for an event that was emitted after a shutdown had been requested, and a
`gracefulShutdown` that does not run into its time-out leaves nothing in process. The two flags are
never reset, so the counter of events in flight, once it is zero during a shutdown, stays zero: a
resolved promise is as good when the call goes on as it was when it was resolved.
-/

namespace KirkForge

/-! ### Traces -/

def BusAction.emission : BusAction → Option Nat
  | emitted n => some n
  | _ => none

/-- The `n`th emission was made before a shutdown was requested. -/
def Early (t : List BusAction) (n : Nat) : Prop :=
  ∃ a b, t = a ++ .emitted n :: b ∧ .shutdownRequested ∉ a

theorem Early.append {t : List BusAction} {n : Nat} (h : Early t n) (u : List BusAction) :
    Early (t ++ u) n := by
  obtain ⟨a, b, rfl, ha⟩ := h
  exact ⟨a, b ++ u, by rw [List.append_assoc, List.cons_append], ha⟩

theorem Early.mem_of_request {t pre post : List BusAction} {n : Nat} (h : Early t n)
    (ht : t = pre ++ .shutdownRequested :: post) : .emitted n ∈ pre := by
  obtain ⟨a, b, heq, ha⟩ := h
  rcases List.append_eq_append_iff.mp (heq.symm.trans ht) with ⟨x, rfl, hx⟩ | ⟨x, rfl, hx⟩
  · cases x with
    | nil => cases hx
    | cons y x =>
      obtain ⟨rfl, -⟩ := List.cons.inj hx
      exact List.mem_append_right _ (.head _)
  · cases x with
    | nil => cases hx
    | cons y x =>
      obtain ⟨rfl, -⟩ := List.cons.inj hx
      exact (ha (List.mem_append_right _ (.head _))).elim

/-- Emissions are numbered in order, only early ones have handlers called for them, and who returns
early leaves nothing in process. -/
structure SafeTrace (t : List BusAction) (emissions : Nat) : Prop where
  numbers : t.filterMap BusAction.emission = List.range emissions
  invoked : ∀ pre n h post, t = pre ++ .invoked n h :: post → Early pre n
  returned : ∀ call ps, .returned call false ps ∈ t → ps = []

namespace SafeTrace

variable {t : List BusAction} {k : Nat}

theorem snoc (ht : SafeTrace t k) {a : BusAction} {k' : Nat}
    (hk : List.range k ++ a.emission.toList = List.range k')
    (hinvoked : ∀ n h, a = .invoked n h → Early t n)
    (hreturned : ∀ call ps, a = .returned call false ps → ps = []) :
    SafeTrace (t ++ [a]) k' where
  numbers := by
    rw [List.filterMap_append, ht.numbers, ← hk]
    cases h : a.emission <;> simp [h]
  invoked pre n h post heq := by
    rcases List.eq_nil_or_concat post with rfl | ⟨post, x, rfl⟩
    · obtain ⟨rfl, ha⟩ := List.append_inj' heq rfl
      exact hinvoked n h (List.singleton_inj.mp ha)
    · rw [List.concat_eq_append, ← List.cons_append, ← List.append_assoc] at heq
      exact ht.invoked pre n h post (List.append_inj' heq rfl).1
  returned call ps hmem := by
    rcases List.mem_append.mp hmem with h | h
    · exact ht.returned call ps h
    · exact hreturned call ps (List.mem_singleton.mp h).symm

theorem emit (ht : SafeTrace t k) : SafeTrace (t ++ [.emitted k]) (k + 1) :=
  ht.snoc List.range_succ.symm nofun nofun

theorem invoke (ht : SafeTrace t k) {n : Nat} (hn : Early t n) (h : HandlerId) :
    SafeTrace (t ++ [.invoked n h]) k := by
  refine ht.snoc (List.append_nil _) (fun m h' heq => ?_) nofun
  obtain ⟨rfl, -⟩ := BusAction.invoked.inj heq
  exact hn

theorem request (ht : SafeTrace t k) : SafeTrace (t ++ [.shutdownRequested]) k :=
  ht.snoc (List.append_nil _) nofun nofun

theorem leave (ht : SafeTrace t k) (call : Nat) {timedOut : Bool} {ps : List Processing}
    (hps : timedOut = false → ps = []) : SafeTrace (t ++ [.returned call timedOut ps]) k := by
  refine ht.snoc (List.append_nil _) nofun fun call' ps' heq => ?_
  obtain ⟨-, htimedOut, rfl⟩ := BusAction.returned.inj heq
  exact hps htimedOut

end SafeTrace

/-! ### What a step does to the bus -/

namespace EventBus

/-- What a shutdown looks at. -/
def flags (bus : EventBus) : Nat × Bool × Bool × Bool :=
  (bus.inflight, bus.shuttingDown, bus.drainAwaited, bus.drained)

theorem emit_flags (env : BusEnv) (object : EventObject) (now trimNow : Nat) (bus : EventBus) :
    (bus.emit env object now trimNow).1.flags = bus.flags := by
  rw [emit]
  cases bus.accepting with
  | false => rfl
  | true =>
    cases bus.full with
    | true => rfl
    | false =>
      cases h : bus.idempotency.has (makeEventId env object.event) <;>
        simp [h, trimIdempotency, flags]

theorem emit_of_shuttingDown {bus : EventBus} (h : bus.shuttingDown = true) (env : BusEnv)
    (object : EventObject) (now trimNow : Nat) :
    bus.emit env object now trimNow =
      (bus, .refused .notRunning (.handler ⟨"emit", "EventBus is not running"⟩)) := by
  rw [emit, accepting, h, Bool.not_true, Bool.and_false]
  rfl

end EventBus

namespace BusLog

variable (env : BusEnv)

/-- An emission leaves the flags alone or begins one run, which it does not in a shutdown. -/
theorem step_emit (s : BusLog) (object : EventObject) (now trimNow : Nat) :
    let s' := s.step env (.emit object now trimNow)
    s'.processings = s.processings ∧ s'.bus.flags = s.bus.flags ∨
      s.bus.shuttingDown = false ∧ (∃ p, s'.processings = s.processings ++ [p]) ∧
        s'.bus.flags = (s.bus.inflight + 1, s.bus.flags.2) := by
  intro s'
  cases hshutting : s.bus.shuttingDown with
  | true =>
    left
    simp only [s', step, EventBus.emit_of_shuttingDown hshutting, afterAdmission, and_self]
  | false =>
    have hflags := EventBus.emit_flags env object now trimNow s.bus
    simp only [s', step]
    generalize s.bus.emit env object now trimNow = r at hflags ⊢
    obtain ⟨bus, admission⟩ := r
    cases admission with
    | refused path error => exact .inl ⟨rfl, hflags⟩
    | process path processed =>
      simp only [afterAdmission, begin]
      cases LiveSet.next (bus.handlersOf processed.event.kind) 0 with
      | none => exact .inl ⟨rfl, hflags⟩
      | some next =>
        have hinflight : bus.inflight = s.bus.inflight := congrArg Prod.fst hflags
        have hrest : bus.flags.2 = s.bus.flags.2 := congrArg Prod.snd hflags
        exact .inr ⟨trivial, ⟨_, rfl⟩, Prod.ext (congrArg (· + 1) hinflight) hrest⟩

theorem step_settle_next {s : BusLog} {i : Nat} {p : Processing} (hp : s.processings[i]? = some p)
    {next : Nat × HandlerId}
    (hnext : LiveSet.next (s.bus.handlersOf p.object.event.kind) p.place = some next)
    (outcome : HandlerOutcome) :
    (s.step env (.settle i outcome)).bus = s.bus ∧
      (s.step env (.settle i outcome)).processings.length = s.processings.length := by
  simp only [step, hp, resume, Processing.record, hnext, List.length_set, and_self]

theorem step_settle_last {s : BusLog} {i : Nat} {p : Processing} (hp : s.processings[i]? = some p)
    (hnext : LiveSet.next (s.bus.handlersOf p.object.event.kind) p.place = none)
    (outcome : HandlerOutcome) :
    (s.step env (.settle i outcome)).bus = s.bus.finish p.object ∧
      (s.step env (.settle i outcome)).processings = s.processings.eraseIdx i := by
  simp only [step, hp, resume, Processing.record, hnext, and_self]

end BusLog

/-! ### The invariant -/

namespace ShutdownLog

variable {env : BusEnv} {s : ShutdownLog}

/-- The counter counts what is in process, and a promise is resolved when that is nothing. -/
structure Inv (s : ShutdownLog) : Prop where
  inflight : s.log.bus.inflight = s.log.processings.length
  sources : s.sources.length = s.log.processings.length
  requested : .shutdownRequested ∈ s.trace → s.log.bus.shuttingDown = true
  early : ∀ n ∈ s.sources, Early s.trace n
  trace : SafeTrace s.trace s.emissions
  resolved : ∀ c ∈ s.calls, c.resolved = true →
    s.log.bus.shuttingDown = true ∧ s.log.processings = []

theorem init_inv (options : EventBusOptions) : Inv (init options) where
  inflight := rfl
  sources := rfl
  requested := nofun
  early := nofun
  trace :=
    { numbers := rfl
      invoked := by
        intro pre n h post heq
        cases pre <;> cases heq
      returned := nofun }
  resolved := nofun

/-- A handler that settles is followed by the next one, or the event has been processed. -/
theorem settle_cases (env : BusEnv) (s : ShutdownLog) (i : Nat) (outcome : HandlerOutcome) :
    s.settle env i outcome = s ∨
    ∃ p n, s.log.processings[i]? = some p ∧ s.sources[i]? = some n ∧
      ((∃ next, LiveSet.next (s.log.bus.handlersOf p.object.event.kind) p.place = some next ∧
        s.settle env i outcome = { s with
          log := s.log.step env (.settle i outcome)
          trace := s.trace ++ [.invoked n next.2] }) ∨
      LiveSet.next (s.log.bus.handlersOf p.object.event.kind) p.place = none ∧
        s.settle env i outcome = { s with
          log := s.log.step env (.settle i outcome)
          sources := s.sources.eraseIdx i
          calls := resolveDrain { s with
            log := s.log.step env (.settle i outcome)
            sources := s.sources.eraseIdx i } }) := by
  cases hp : s.log.processings[i]? with
  | none => exact .inl (by simp only [settle, hp])
  | some p =>
    cases hn : s.sources[i]? with
    | none => exact .inl (by simp only [settle, hp, hn])
    | some n =>
      refine .inr ⟨p, n, rfl, rfl, ?_⟩
      cases hnext : LiveSet.next (s.log.bus.handlersOf p.object.event.kind) p.place with
      | some next => exact .inl ⟨next, rfl, by simp only [settle, hp, hn, hnext]⟩
      | none => exact .inr ⟨rfl, by simp only [settle, hp, hn, hnext]⟩

theorem mem_modify {calls : List ShutdownCall} {call : Nat} {f : ShutdownCall → ShutdownCall}
    {c : ShutdownCall} (hc : c ∈ calls.modify call f) : ∃ c' ∈ calls, c = c' ∨ c = f c' := by
  obtain ⟨i, hi, rfl⟩ := List.mem_iff_getElem.mp hc
  rw [List.length_modify] at hi
  rw [List.getElem_modify]
  refine ⟨calls[i], List.getElem_mem hi, ?_⟩
  split
  · exact .inr rfl
  · exact .inl rfl

/-- A promise is resolved only after a request, when nothing is counted any more. -/
theorem mem_resolveDrain {c : ShutdownCall} (hc : c ∈ s.resolveDrain) : c ∈ s.calls ∨
    s.drainResolve ≠ none ∧ s.log.bus.shuttingDown = true ∧ s.log.bus.inflight = 0 ∧
      ∃ c' ∈ s.calls, c = { c' with resolved := true } := by
  rw [resolveDrain] at hc
  cases hresolver : s.drainResolve with
  | none =>
    rw [hresolver] at hc
    exact .inl hc
  | some call =>
    simp only [hresolver] at hc
    split at hc
    · next hdrained =>
      obtain ⟨hshutting, hinflight⟩ := Bool.and_eq_true_iff.mp hdrained
      obtain ⟨c', hc', rfl | rfl⟩ := mem_modify hc
      · exact .inl hc'
      · exact .inr ⟨nofun, hshutting, of_decide_eq_true hinflight, c', hc', rfl⟩
    · exact .inl hc

/-- What does not concern a shutdown keeps the invariant. -/
theorem Inv.congr (hs : Inv s) (log : BusLog) (hflags : log.bus.flags = s.log.bus.flags)
    (hlength : log.processings.length = s.log.processings.length) : Inv { s with log } := by
  obtain ⟨hinflight, hrest⟩ := Prod.mk.inj hflags
  obtain ⟨hshutting, -⟩ := Prod.mk.inj hrest
  refine ⟨?_, ?_, ?_, hs.early, hs.trace, ?_⟩
  · rw [hinflight, hlength, hs.inflight]
  · rw [hlength, hs.sources]
  · rw [hshutting]; exact hs.requested
  · intro c hc hresolved
    obtain ⟨h, hnil⟩ := hs.resolved c hc hresolved
    refine ⟨hshutting.trans h, List.eq_nil_of_length_eq_zero ?_⟩
    rw [hlength, hnil]
    rfl

/-- A promise is resolved only while nothing is in process. -/
theorem Inv.withCalls (hs : Inv s) {calls : List ShutdownCall} (drainResolve : Option Nat)
    (h : ∀ c ∈ calls, c.resolved = true → (∃ c' ∈ s.calls, c'.resolved = true) ∨
      s.log.bus.shuttingDown = true ∧ s.log.processings = []) :
    Inv { s with calls, drainResolve } := by
  refine ⟨hs.inflight, hs.sources, hs.requested, hs.early, hs.trace, fun c hc hresolved => ?_⟩
  rcases h c hc hresolved with ⟨c', hc', h'⟩ | h'
  · exact hs.resolved c' hc' h'
  · exact h'

theorem Inv.resolve (hs : Inv s) : Inv { s with calls := s.resolveDrain } := by
  refine hs.withCalls s.drainResolve fun c hc hresolved => ?_
  rcases mem_resolveDrain hc with h | ⟨-, hshutting, hinflight, -⟩
  · exact .inl ⟨c, h, hresolved⟩
  · have hnil : s.log.processings.length = 0 := hs.inflight ▸ hinflight
    exact .inr ⟨hshutting, List.eq_nil_of_length_eq_zero hnil⟩

/-- Any request for a shutdown raises the flag and leaves what is in process alone. -/
theorem Inv.request (hs : Inv s) (bus : EventBus) (hinflight : bus.inflight = s.log.bus.inflight)
    (hshutting : bus.shuttingDown = true) :
    Inv { s with
      log := { s.log with bus }
      trace := s.trace ++ [.shutdownRequested] } where
  inflight := hinflight.trans hs.inflight
  sources := hs.sources
  requested _ := hshutting
  early n hn := (hs.early n hn).append _
  trace := hs.trace.request
  resolved c hc hresolved := ⟨hshutting, (hs.resolved c hc hresolved).2⟩

theorem Inv.leave (hs : Inv s) (call : Nat) {timedOut : Bool}
    (h : timedOut = false → s.log.processings = []) :
    Inv { s with trace := s.trace ++ [.returned call timedOut s.log.processings] } := by
  refine ⟨hs.inflight, hs.sources, fun hmem => ?_, fun n hn => (hs.early n hn).append _,
    hs.trace.leave call h, hs.resolved⟩
  exact hs.requested (by simpa using hmem)

/-! ### The steps -/

theorem emit_inv (hs : Inv s) (object : EventObject) (now trimNow : Nat) :
    Inv (s.emit env object now trimNow) := by
  have hemit := hs.trace.emit
  rw [emit]
  rcases s.log.step_emit env object now trimNow with ⟨hsame, hflags⟩ | ⟨hshutting, ⟨p, hp⟩, hflags⟩
  · rw [hsame, List.drop_length]
    have hs' := hs.congr _ hflags (congrArg _ hsame)
    refine ⟨hs'.inflight, ?_, ?_, ?_, hemit, hs'.resolved⟩
    · rw [List.map_nil, List.append_nil]
      exact hs'.sources
    · intro hmem
      exact hs'.requested (by simpa using hmem)
    · intro n hn
      rw [List.map_nil, List.append_nil] at hn
      exact (hs.early n hn).append _
  · rw [hp, List.drop_left]
    -- a run begins, so no shutdown has been requested
    have hrequested : .shutdownRequested ∉ s.trace := fun h => by
      rw [hs.requested h] at hshutting; cases hshutting
    have hearly : Early (s.trace ++ [.emitted s.emissions]) s.emissions :=
      ⟨s.trace, [], rfl, hrequested⟩
    have htrace : SafeTrace (s.trace ++ .emitted s.emissions ::
        [p].map fun p => .invoked s.emissions p.handler) (s.emissions + 1) := by
      rw [List.append_cons]
      exact hemit.invoke hearly p.handler
    obtain ⟨hinflight, -⟩ := Prod.mk.inj hflags
    refine ⟨?_, ?_, ?_, ?_, htrace, ?_⟩
    · rw [hp, List.length_append, ← hs.inflight]
      exact hinflight
    · rw [hp, List.length_append, List.length_append, hs.sources]
      rfl
    · intro hmem
      exact (hrequested (by simpa using hmem)).elim
    · intro n hn
      rcases List.mem_append.mp hn with hn | hn
      · exact (hs.early n hn).append _
      · obtain rfl := List.mem_singleton.mp hn
        rw [List.append_cons]
        exact hearly.append _
    · intro c hc hresolved
      rw [(hs.resolved c hc hresolved).1] at hshutting
      cases hshutting

theorem settle_inv (hs : Inv s) (i : Nat) (outcome : HandlerOutcome) :
    Inv (s.settle env i outcome) := by
  rcases settle_cases env s i outcome with
    h | ⟨p, n, hp, hn, ⟨next, hnext, h⟩ | ⟨hnext, h⟩⟩ <;> rw [h]
  · exact hs
  · obtain ⟨hbus, hlength⟩ := BusLog.step_settle_next env hp hnext outcome
    have hs' := hs.congr _ (congrArg EventBus.flags hbus) hlength
    refine ⟨hs'.inflight, hs'.sources, ?_, ?_, ?_, hs'.resolved⟩
    · intro hmem
      exact hs'.requested (by simpa using hmem)
    · exact fun m hm => (hs.early m hm).append _
    · exact hs.trace.invoke (hs.early n (List.mem_of_getElem? hn)) next.2
  · obtain ⟨hbus, hprocessings⟩ := BusLog.step_settle_last env hp hnext outcome
    have hi : i < s.log.processings.length := (List.getElem?_eq_some_iff.mp hp).1
    have hs' : Inv { s with
        log := s.log.step env (.settle i outcome)
        sources := s.sources.eraseIdx i } := by
      refine ⟨?_, ?_, ?_, ?_, hs.trace, ?_⟩
      · rw [hbus, hprocessings, List.length_eraseIdx_of_lt hi, ← hs.inflight]
        rfl
      · rw [hprocessings, List.length_eraseIdx_of_lt hi,
          List.length_eraseIdx_of_lt (hs.sources.symm ▸ hi), hs.sources]
      · rw [hbus]
        exact hs.requested
      · exact fun m hm => hs.early m (List.mem_of_mem_eraseIdx hm)
      · intro c hc hresolved
        rw [(hs.resolved c hc hresolved).2] at hi
        cases hi
    exact hs'.resolve

/-- A new call has not been resolved. -/
theorem Inv.addCall (hs : Inv s) (drainResolve : Option Nat) {c : ShutdownCall}
    (hc : c.resolved = false) : Inv { s with calls := s.calls ++ [c], drainResolve } := by
  refine hs.withCalls drainResolve fun c' hc' hresolved => ?_
  rcases List.mem_append.mp hc' with h | h
  · exact .inl ⟨c', h, hresolved⟩
  · rw [List.mem_singleton.mp h, hc] at hresolved
    cases hresolved

theorem gracefulShutdown_inv (hs : Inv s) : Inv (s.gracefulShutdown env) := by
  rw [gracefulShutdown, BusLog.step, EventBus.gracefulShutdown]
  by_cases hinflight : s.log.bus.inflight = 0
  · have hnil : s.log.processings.length = 0 := hs.inflight ▸ hinflight
    simp only [if_pos hinflight]
    have hrequested := hs.request
      { s.log.bus with shuttingDown := true, running := false } rfl rfl
    exact (hrequested.addCall s.drainResolve rfl).leave s.calls.length
      fun _ => List.eq_nil_of_length_eq_zero hnil
  · simp only [if_neg hinflight]
    have hrequested := hs.request
      { s.log.bus with shuttingDown := true, drainAwaited := true } rfl rfl
    exact hrequested.addCall (some s.calls.length) rfl

theorem timer_inv (hs : Inv s) (call : Nat) : Inv (s.timer call) := by
  refine hs.withCalls s.drainResolve fun c hc hresolved => ?_
  obtain ⟨c', hc', rfl | rfl⟩ := mem_modify hc
  · exact .inl ⟨_, hc', hresolved⟩
  · exact .inl ⟨_, hc', hresolved⟩

theorem resume_inv (hs : Inv s) (call : Nat) : Inv (s.resume call) := by
  rw [resume]
  cases hc : s.calls[call]? with
  | none => exact hs
  | some c =>
    dsimp only
    cases hgoes : !c.returned && (c.resolved || c.timedOut) with
    | false => exact hs
    | true =>
      have hmem : c ∈ s.calls := List.mem_of_getElem? hc
      have hstopped : Inv { s with
          log := { s.log with bus := { s.log.bus with running := false } }
          calls := s.calls.set call { c with returned := true } } := by
        refine (hs.congr { s.log with bus := { s.log.bus with running := false } }
          rfl rfl).withCalls s.drainResolve fun c' hc' hresolved => ?_
        rcases List.mem_or_eq_of_mem_set hc' with h | rfl
        · exact .inl ⟨c', h, hresolved⟩
        · exact .inl ⟨c, hmem, hresolved⟩
      refine hstopped.leave call fun htimedOut => ?_
      -- without the time-out it is the promise that has let the call go on
      rw [htimedOut, Bool.or_false, Bool.and_eq_true_iff] at hgoes
      exact (hs.resolved c hmem hgoes.2).2

theorem step_inv (hs : Inv s) (i : ShutdownInput) : Inv (s.step env i) := by
  cases i with
  | on kind handler => exact hs.congr _ rfl rfl
  | unsubscribe kind handler => exact hs.congr _ rfl (List.length_map _)
  | emit object now trimNow => exact emit_inv hs object now trimNow
  | settle i outcome => exact settle_inv hs i outcome
  | drainBuffer => exact hs.congr _ rfl rfl
  | shutdown => exact hs.request s.log.bus.shutdown rfl rfl
  | gracefulShutdown => exact gracefulShutdown_inv hs
  | timer call => exact timer_inv hs call
  | resume call => exact resume_inv hs call

theorem run_inv (env : BusEnv) (options : EventBusOptions) (inputs : List ShutdownInput) :
    Inv (Run.run (step env) (init options) inputs) :=
  Run.run_invariant (I := Inv) (fun _ i h => step_inv h i) inputs (init_inv options)

end ShutdownLog

/-! ### The bus underneath -/

/-- The two marks that `EventBus` keeps stand for the calls that wait and for the promise. -/
structure ShutdownLog.Awaited (s : ShutdownLog) : Prop where
  calls : ∀ c ∈ s.calls, c.returned = false → s.log.bus.drainAwaited = true
  resolver : s.drainResolve ≠ none → s.log.bus.drainAwaited = true
  resolved : ∀ c ∈ s.calls, c.resolved = true → s.log.bus.drained = true

namespace ShutdownLog

variable {env : BusEnv} {s : ShutdownLog}

theorem Awaited.congr (hs : Awaited s) {s' : ShutdownLog}
    (hawaited : s.log.bus.drainAwaited = true → s'.log.bus.drainAwaited = true)
    (hdrained : s.log.bus.drained = true → s'.log.bus.drained = true)
    (hcalls : ∀ c ∈ s'.calls,
      ∃ c' ∈ s.calls, (c.returned = false → c'.returned = false) ∧ c.resolved = c'.resolved)
    (hresolver : s'.drainResolve = s.drainResolve) : Awaited s' where
  calls c hc hreturned := by
    obtain ⟨c', hc', h, -⟩ := hcalls c hc
    exact hawaited (hs.calls c' hc' (h hreturned))
  resolver h := hawaited (hs.resolver (hresolver ▸ h))
  resolved c hc hresolved := by
    obtain ⟨c', hc', -, h⟩ := hcalls c hc
    exact hdrained (hs.resolved c' hc' (h ▸ hresolved))

/-- What leaves the calls alone. -/
theorem Awaited.congr_bus (hs : Awaited s) {s' : ShutdownLog}
    (hflags : s'.log.bus.flags.2.2 = s.log.bus.flags.2.2) (hcalls : s'.calls = s.calls)
    (hresolver : s'.drainResolve = s.drainResolve) : Awaited s' := by
  obtain ⟨hawaited, hdrained⟩ := Prod.mk.inj hflags
  refine hs.congr hawaited.trans hdrained.trans (fun c hc => ?_) hresolver
  exact ⟨c, hcalls ▸ hc, id, rfl⟩

theorem Awaited.resolve (hs : Awaited s)
    (h : s.log.bus.shuttingDown = true → s.log.bus.inflight = 0 →
      s.log.bus.drainAwaited = true → s.log.bus.drained = true) :
    Awaited { s with calls := s.resolveDrain } := by
  refine ⟨fun c hc hreturned => ?_, hs.resolver, fun c hc hresolved => ?_⟩
  · rcases mem_resolveDrain hc with hc | ⟨-, -, -, c', hc', rfl⟩
    · exact hs.calls c hc hreturned
    · exact hs.calls c' hc' hreturned
  · rcases mem_resolveDrain hc with hc | ⟨hresolver, hshutting, hinflight, -⟩
    · exact hs.resolved c hc hresolved
    · exact h hshutting hinflight (hs.resolver hresolver)

theorem settle_awaited (hs : Awaited s) (i : Nat) (outcome : HandlerOutcome) :
    Awaited (s.settle env i outcome) := by
  rcases settle_cases env s i outcome with
    h | ⟨p, n, hp, -, ⟨next, hnext, h⟩ | ⟨hnext, h⟩⟩ <;> rw [h]
  · exact hs
  · obtain ⟨hbus, -⟩ := BusLog.step_settle_next env hp hnext outcome
    exact hs.congr_bus (congrArg (·.flags.2.2) hbus) rfl rfl
  · obtain ⟨hbus, -⟩ := BusLog.step_settle_last env hp hnext outcome
    have hs' : Awaited { s with
        log := s.log.step env (.settle i outcome)
        sources := s.sources.eraseIdx i } := by
      refine hs.congr (fun h => ?_) (fun h => ?_) (fun c hc => ⟨c, hc, id, rfl⟩) rfl
      · rw [hbus]
        exact h
      · rw [hbus, EventBus.finish]
        exact Bool.or_eq_true_iff.mpr (.inl h)
    refine hs'.resolve fun hshutting hinflight hawaited => ?_
    simp only [hbus, EventBus.finish] at hshutting hinflight hawaited ⊢
    simp only [hshutting, hinflight, hawaited, decide_true, Bool.and_self, Bool.or_true]

theorem gracefulShutdown_awaited (hs : Awaited s) : Awaited (s.gracefulShutdown env) := by
  rw [gracefulShutdown, BusLog.step, EventBus.gracefulShutdown]
  by_cases hinflight : s.log.bus.inflight = 0
  · simp only [if_pos hinflight]
    refine ⟨?_, hs.resolver, ?_⟩
    · intro c hc hreturned
      rcases List.mem_append.mp hc with h | h
      · exact hs.calls c h hreturned
      · rw [List.mem_singleton.mp h] at hreturned
        cases hreturned
    · intro c hc hresolved
      rcases List.mem_append.mp hc with h | h
      · exact hs.resolved c h hresolved
      · rw [List.mem_singleton.mp h] at hresolved
        cases hresolved
  · simp only [if_neg hinflight]
    refine ⟨fun _ _ _ => rfl, fun _ => rfl, ?_⟩
    intro c hc hresolved
    rcases List.mem_append.mp hc with h | h
    · exact hs.resolved c h hresolved
    · rw [List.mem_singleton.mp h] at hresolved
      cases hresolved

theorem timer_awaited (hs : Awaited s) (call : Nat) : Awaited (s.timer call) := by
  refine hs.congr id id (fun c hc => ?_) rfl
  obtain ⟨c', hc', rfl | rfl⟩ := mem_modify hc
  · exact ⟨_, hc', id, rfl⟩
  · exact ⟨c', hc', id, rfl⟩

theorem resume_awaited (hs : Awaited s) (call : Nat) : Awaited (s.resume call) := by
  rw [resume]
  cases hc : s.calls[call]? with
  | none => exact hs
  | some c =>
    dsimp only
    cases !c.returned && (c.resolved || c.timedOut) with
    | false => exact hs
    | true =>
      refine hs.congr id id (fun c' hc' => ?_) rfl
      rcases List.mem_or_eq_of_mem_set hc' with h | rfl
      · exact ⟨c', h, id, rfl⟩
      · exact ⟨c, List.mem_of_getElem? hc, nofun, rfl⟩

theorem step_awaited (hs : Awaited s) (i : ShutdownInput) : Awaited (s.step env i) := by
  cases i with
  | on | unsubscribe | drainBuffer | shutdown => exact hs.congr_bus rfl rfl rfl
  | emit object now trimNow =>
    refine hs.congr_bus ?_ rfl rfl
    rcases s.log.step_emit env object now trimNow with ⟨-, hflags⟩ | ⟨-, -, hflags⟩
    · exact congrArg (·.2.2) hflags
    · exact congrArg (·.2.2) hflags
  | settle i outcome => exact settle_awaited hs i outcome
  | gracefulShutdown => exact gracefulShutdown_awaited hs
  | timer call => exact timer_awaited hs call
  | resume call => exact resume_awaited hs call

/-- Each step is a step of the bus, or none. -/
theorem step_log (hs : Awaited s) (i : ShutdownInput) :
    ∃ inputs, (s.step env i).log = Run.run (BusLog.step env) s.log inputs := by
  cases i with
  | on kind handler => exact ⟨[.on kind handler], rfl⟩
  | unsubscribe kind handler => exact ⟨[.unsubscribe kind handler], rfl⟩
  | emit object now trimNow => exact ⟨[.emit object now trimNow], rfl⟩
  | settle i outcome =>
    rw [step]
    rcases settle_cases env s i outcome with h | ⟨p, n, -, -, ⟨next, -, h⟩ | ⟨-, h⟩⟩ <;> rw [h]
    · exact ⟨[], rfl⟩
    · exact ⟨[.settle i outcome], rfl⟩
    · exact ⟨[.settle i outcome], rfl⟩
  | drainBuffer => exact ⟨[.drainBuffer], rfl⟩
  | shutdown => exact ⟨[.shutdown], rfl⟩
  | gracefulShutdown =>
    refine ⟨[.gracefulShutdown], ?_⟩
    rw [step, gracefulShutdown]
    split <;> rfl
  | timer call => exact ⟨[], rfl⟩
  | resume call =>
    rw [step, resume]
    cases hc : s.calls[call]? with
    | none => exact ⟨[], rfl⟩
    | some c =>
      dsimp only
      cases hgoes : !c.returned && (c.resolved || c.timedOut) with
      | false => exact ⟨[], rfl⟩
      | true =>
        obtain ⟨hreturned, hends⟩ := Bool.and_eq_true_iff.mp hgoes
        have hmem : c ∈ s.calls := List.mem_of_getElem? hc
        have hawaited := hs.calls c hmem (Bool.not_eq_true' _ ▸ hreturned)
        have hdrained : (c.timedOut || s.log.bus.drained) = true := by
          rcases Bool.or_eq_true_iff.mp hends with h | h
          · exact Bool.or_eq_true_iff.mpr (.inr (hs.resolved c hmem h))
          · exact Bool.or_eq_true_iff.mpr (.inl h)
        refine ⟨[.gracefulShutdownEnds c.timedOut], ?_⟩
        simp only [Run.run, List.foldl, BusLog.step, EventBus.gracefulShutdownEnds, hawaited,
          hdrained, Bool.and_self, if_true]

/-- What is known of every run of the bus holds of the bus of a shutdown. -/
theorem run_log (env : BusEnv) (options : EventBusOptions) (inputs : List ShutdownInput) :
    ∃ busInputs, (Run.run (step env) (init options) inputs).log =
      Run.run (BusLog.step env) (BusLog.init options) busInputs := by
  suffices h : ∀ s : ShutdownLog, Awaited s → ∃ busInputs,
      (Run.run (step env) s inputs).log = Run.run (BusLog.step env) s.log busInputs from
    h (init options) ⟨nofun, nofun, nofun⟩
  induction inputs with
  | nil => exact fun s _ => ⟨[], rfl⟩
  | cons i inputs ih =>
    intro s hs
    obtain ⟨first, hfirst⟩ := @step_log env s hs i
    obtain ⟨rest, hrest⟩ := ih (s.step env i) (step_awaited hs i)
    refine ⟨first ++ rest, ?_⟩
    rw [Run.run_cons, hrest, hfirst, Run.run, Run.run, Run.run, List.foldl_append]

end ShutdownLog

/-! ### The guarantee -/

/-- Handlers are called for events that were emitted before, none of them after a request to shut
down, and a `gracefulShutdown` that is back before its time-out has nothing in process. -/
structure OrderlyShutdown (t : List BusAction) : Prop where
  emitted : ∀ pre n h post, t = pre ++ .invoked n h :: post → .emitted n ∈ pre
  refused : ∀ pre post, t = pre ++ .shutdownRequested :: post → ∀ n, .emitted n ∈ post →
    ∀ h, .invoked n h ∉ t
  drained : ∀ call processings, .returned call false processings ∈ t → processings = []

theorem SafeTrace.orderly {t : List BusAction} {k : Nat} (ht : SafeTrace t k) :
    OrderlyShutdown t where
  emitted pre n h post heq := by
    obtain ⟨a, b, rfl, -⟩ := ht.invoked pre n h post heq
    exact List.mem_append_right _ (.head _)
  refused pre post heq n hn h hinvoked := by
    obtain ⟨pre', post', heq'⟩ := List.append_of_mem hinvoked
    have hearly : Early t n := heq' ▸ (ht.invoked pre' n h post' heq').append _
    have hpre : .emitted n ∈ pre := hearly.mem_of_request heq
    have hnodup : (t.filterMap BusAction.emission).Nodup := ht.numbers ▸ List.nodup_range
    rw [heq, List.filterMap_append, List.filterMap_cons_none rfl] at hnodup
    have hn₁ : n ∈ pre.filterMap BusAction.emission := List.mem_filterMap.mpr ⟨_, hpre, rfl⟩
    have hn₂ : n ∈ post.filterMap BusAction.emission := List.mem_filterMap.mpr ⟨_, hn, rfl⟩
    exact (List.nodup_append.mp hnodup).2.2 n hn₁ n hn₂ rfl
  drained := ht.returned

theorem shutdown_orderly (env : BusEnv) (options : EventBusOptions)
    (inputs : List ShutdownInput) :
    OrderlyShutdown (Run.run (ShutdownLog.step env) (ShutdownLog.init options) inputs).trace :=
  (ShutdownLog.run_inv env options inputs).trace.orderly

end KirkForge
