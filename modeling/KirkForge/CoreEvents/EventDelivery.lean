import KirkForge.CoreEvents.EventBus
import KirkForge.Theory.Lists

/-!
# Delivery by the event bus

What the result of `emit` says about the handlers. Every run of `_process` is a traversal of a live
set, so that a handler that stays registered is called once; an event that does not get to
`_process` is answered with an error, but for the overflow path, whose result is that of another
event.
-/

namespace KirkForge

/-- An emission that returned without an error was handed to its handlers: each that was registered
at the end, and not unsubscribed on the way, ran once, and none failed. -/
structure EmitCall.Delivered (call : EmitCall) : Prop where
  handed : call.result = .ok () → call.path = .accepted ∧ call.processed = some call.emitted
  once : call.result = .ok () → ∀ h ∈ call.registered, h ∉ call.unsubscribed →
    (call.runs.map Prod.fst).count h = 1
  succeeded : call.result = .ok () → ∀ run ∈ call.runs, run.2 = .ok

theorem EmitCall.Delivered.accepted_or_failed {call : EmitCall} (h : call.Delivered) :
    (call.path = .accepted || !call.result.isOk) = true := by
  rcases hresult : call.result with e | u
  · simp [Except.isOk, Except.toBool]
  · simp [(h.handed hresult).1]

namespace BusLog

variable {env : BusEnv}

/-- An event that finds the buffer full finds an overflow handler that fails. -/
def Reported (s : BusLog) : BusInput → Prop
  | .emit _ _ _ => s.bus.accepting = true → s.bus.full = true →
      s.registered .eventBusOverflowed ≠ []
  | .settle i outcome => ∀ p, s.processings[i]? = some p → p.path = .overflow →
      LiveSet.next (s.bus.handlersOf p.object.event.kind) p.place = none →
        p.errors ≠ [] ∨ outcome ≠ .ok
  | _ => True

/-! ### What a run of `_process` keeps -/

/-- The traversal has met the handlers that have ended and the one that is awaited. -/
structure Valid (bus : EventBus) (p : Processing) : Prop where
  met : LiveSet.Met (bus.handlersOf p.object.event.kind) p.place
    (p.runs.map Prod.fst ++ [p.handler]) p.unsubscribed
  failed : p.errors = [] → ∀ run ∈ p.runs, run.2 = .ok
  path : p.path = .overflow ∨ p.path = .accepted ∧ p.object = p.emitted

structure Inv (s : BusLog) : Prop where
  nodup : ∀ kind, (s.registered kind).Nodup
  valid : ∀ p ∈ s.processings, Valid s.bus p
  delivered : ∀ call ∈ s.calls, call.Delivered

theorem handlersOf_on (bus : EventBus) (kind kind' : EventKind) (handler : HandlerId) :
    (bus.on kind handler).handlersOf kind' =
      if kind = kind' then LiveSet.add handler (bus.handlersOf kind) else bus.handlersOf kind' := by
  rw [EventBus.handlersOf, EventBus.on, OrderedMap.get?_set]
  split <;> rfl

theorem handlersOf_unsubscribe (bus : EventBus) (kind kind' : EventKind) (handler : HandlerId) :
    (bus.unsubscribe kind handler).handlersOf kind' =
      if kind = kind' then LiveSet.delete handler (bus.handlersOf kind)
      else bus.handlersOf kind' := by
  rw [EventBus.handlersOf, EventBus.unsubscribe, OrderedMap.get?_set]
  split <;> rfl

theorem errors_record_eq_nil {p : Processing} {outcome : HandlerOutcome} :
    (p.record env outcome).errors = [] ↔ p.errors = [] ∧ outcome = .ok := by
  cases outcome <;> simp [Processing.record, HandlerOutcome.error]

theorem Valid.record_failed {bus : EventBus} {p : Processing} (h : Valid bus p)
    {outcome : HandlerOutcome} (herrors : (p.record env outcome).errors = []) :
    ∀ run ∈ (p.record env outcome).runs, run.2 = .ok := by
  obtain ⟨hp, rfl⟩ := errors_record_eq_nil.mp herrors
  exact List.forall_mem_append.mpr ⟨h.failed hp, List.forall_mem_singleton.mpr rfl⟩

theorem Valid.congr {bus bus' : EventBus} {p : Processing} (h : Valid bus p)
    (hhandlers : bus'.handlers = bus.handlers) : Valid bus' p := by
  refine ⟨?_, h.failed, h.path⟩
  rw [EventBus.handlersOf, hhandlers]
  exact h.met

theorem Inv.congr {s : BusLog} (h : Inv s) {bus : EventBus}
    (hhandlers : bus.handlers = s.bus.handlers) : Inv { s with bus } where
  nodup kind := by
    rw [registered, EventBus.handlersOf, hhandlers]
    exact h.nodup kind
  valid p hp := (h.valid p hp).congr hhandlers
  delivered := h.delivered

theorem resultOf_eq_ok {errors : List HandlerError} : resultOf errors = .ok () ↔ errors = [] := by
  cases errors <;> simp [resultOf]

/-! ### Steps -/

theorem on_inv {s : BusLog} (h : Inv s) (kind : EventKind) (handler : HandlerId) :
    Inv { s with bus := s.bus.on kind handler } := by
  refine ⟨fun kind' => ?_, fun p hp => ⟨?_, (h.valid p hp).failed, (h.valid p hp).path⟩, h.delivered⟩
  · rw [registered, handlersOf_on]
    split
    · exact LiveSet.nodup_add (h.nodup kind) handler
    · exact h.nodup kind'
  · rw [handlersOf_on]
    split
    · next hkind => exact hkind ▸ (h.valid p hp).met.add handler
    · exact (h.valid p hp).met

theorem unsubscribe_inv {s : BusLog} (h : Inv s) (kind : EventKind) (handler : HandlerId) :
    Inv (step env s (.unsubscribe kind handler)) := by
  refine ⟨fun kind' => ?_, fun p' hp' => ?_, h.delivered⟩
  · rw [step, registered, handlersOf_unsubscribe]
    split
    · exact LiveSet.nodup_delete (h.nodup kind) handler
    · exact h.nodup kind'
  · obtain ⟨p, hp, rfl⟩ := List.mem_map.mp hp'
    have hmet := (h.valid p hp).met
    by_cases hkind : p.object.event.kind = kind
    · have hdelete := hmet.delete handler
      subst hkind
      split
      · next hregistered =>
        refine ⟨?_, (h.valid p hp).failed, (h.valid p hp).path⟩
        rw [step, handlersOf_unsubscribe, if_pos rfl]
        rwa [← registered, if_pos hregistered.2] at hdelete
      · next hunregistered =>
        refine ⟨?_, (h.valid p hp).failed, (h.valid p hp).path⟩
        rw [step, handlersOf_unsubscribe, if_pos rfl]
        rwa [← registered, if_neg fun hmem => hunregistered ⟨rfl, hmem⟩] at hdelete
    · rw [if_neg fun hand => hkind hand.1]
      refine ⟨?_, (h.valid p hp).failed, (h.valid p hp).path⟩
      rw [step, handlersOf_unsubscribe, if_neg (Ne.symm hkind)]
      exact hmet

/-- A run of `_process` begins; without handlers it is over at once, which is a delivery if the
event is the emitted one. -/
theorem begin_inv {s : BusLog} (h : Inv s) {path : EmitPath} {emitted object : EventObject}
    (hpath : (path = .overflow ∧ s.registered object.event.kind ≠ []) ∨
      path = .accepted ∧ object = emitted) : Inv (s.begin path emitted object) := by
  rw [begin]
  split
  · next hnone =>
    have hempty := LiveSet.next_zero_eq_none_iff.mp hnone
    obtain ⟨-, hne⟩ | ⟨rfl, rfl⟩ := hpath
    · exact absurd hempty hne
    · refine ⟨h.nodup, h.valid, List.forall_mem_append.mpr ⟨h.delivered,
        List.forall_mem_singleton.mpr ⟨fun _ => ⟨rfl, rfl⟩, fun _ handler hhandler => ?_,
          fun _ => List.forall_mem_nil _⟩⟩⟩
      rw [registered, hempty] at hhandler
      exact absurd hhandler List.not_mem_nil
  · next hnext =>
    have hs : Inv { s with bus := { s.bus with inflight := s.bus.inflight + 1 } } := h.congr rfl
    refine ⟨hs.nodup, List.forall_mem_append.mpr ⟨hs.valid, List.forall_mem_singleton.mpr
      ⟨?_, fun _ => List.forall_mem_nil _, hpath.imp And.left id⟩⟩, h.delivered⟩
    exact (LiveSet.Met.begin (h.nodup _)).step hnext

theorem refused_inv {s : BusLog} (h : Inv s) (path : EmitPath) (object : EventObject)
    (error : EmitError) : Inv (s.afterAdmission object (.refused path error)) :=
  ⟨h.nodup, h.valid, List.forall_mem_append.mpr ⟨h.delivered,
    List.forall_mem_singleton.mpr ⟨nofun, nofun, nofun⟩⟩⟩

theorem emit_inv {s : BusLog} (h : Inv s) {object : EventObject} {now trimNow : Nat}
    (hi : Reported s (.emit object now trimNow)) :
    Inv (step env s (.emit object now trimNow)) := by
  rw [step, EventBus.emit]
  split
  · exact refused_inv h ..
  next hopen =>
  rw [Bool.not_eq_true', Bool.not_eq_false] at hopen
  split
  · next hfull =>
    apply begin_inv
    · exact h.congr rfl
    · exact .inl ⟨rfl, hi hopen hfull⟩
  dsimp only
  split
  · exact refused_inv h ..
  · apply begin_inv
    · exact h.congr rfl
    · exact .inr ⟨rfl, rfl⟩

theorem settle_inv {s : BusLog} (h : Inv s) {i : Nat} {outcome : HandlerOutcome}
    (hi : Reported s (.settle i outcome)) : Inv (step env s (.settle i outcome)) := by
  rw [step]
  split
  · exact h
  next p hp =>
  have hvalid := h.valid p (List.mem_of_getElem? hp)
  rw [resume]
  split
  · next place handler hnext =>
    refine ⟨h.nodup, fun q hq => ?_, h.delivered⟩
    obtain hq | rfl := List.mem_or_eq_of_mem_set hq
    · exact h.valid q hq
    · refine ⟨?_, hvalid.record_failed, hvalid.path⟩
      have hmet := hvalid.met.step hnext
      simpa [Processing.record] using hmet
  · next hnext =>
    have haccepted (herrors : (p.record env outcome).errors = []) :
        p.path = .accepted ∧ p.object = p.emitted := by
      obtain ⟨hbefore, rfl⟩ := errors_record_eq_nil.mp herrors
      refine hvalid.path.resolve_left fun hoverflow => ?_
      rcases hi p hp hoverflow hnext with hfailed | hfailed
      · exact hfailed hbefore
      · exact hfailed rfl
    have hs : Inv { s with bus := s.bus.finish p.object } := h.congr rfl
    refine ⟨hs.nodup, fun q hq => hs.valid q (List.mem_of_mem_eraseIdx hq),
      List.forall_mem_append.mpr ⟨h.delivered, List.forall_mem_singleton.mpr ⟨fun hok => ?_,
        fun hok handler hhandler hsubscribed => ?_, fun hok => ?_⟩⟩⟩
    · obtain ⟨hpath, hobject⟩ := haccepted (resultOf_eq_ok.mp hok)
      exact ⟨hpath, congrArg some hobject⟩
    · have hregistered : handler ∈ LiveSet.elements (s.bus.handlersOf p.object.event.kind) := by
        rw [(haccepted (resultOf_eq_ok.mp hok)).2]
        exact hhandler
      have honce := hvalid.met.finish hnext hregistered hsubscribed
      simpa [Processing.record] using honce
    · exact hvalid.record_failed (resultOf_eq_ok.mp hok)

theorem step_inv {s : BusLog} {i : BusInput} (h : Inv s) (hi : Reported s i) :
    Inv (step env s i) := by
  cases i with
  | on kind handler => exact on_inv h kind handler
  | unsubscribe kind handler => exact unsubscribe_inv h kind handler
  | emit => exact emit_inv h hi
  | settle => exact settle_inv h hi
  | drainBuffer | shutdown => exact h.congr rfl
  | gracefulShutdown =>
    refine h.congr ?_
    rw [EventBus.gracefulShutdown]
    split <;> rfl
  | gracefulShutdownEnds =>
    refine h.congr ?_
    rw [EventBus.gracefulShutdownEnds]
    split <;> rfl

theorem begin_calls {s : BusLog} (path : EmitPath) (emitted : EventObject) {object : EventObject}
    (h : s.registered object.event.kind = []) :
    ∃ call ∈ (s.begin path emitted object).calls, call.path = path ∧ call.result = .ok () := by
  rw [begin, LiveSet.next_zero_eq_none_iff.mpr h]
  exact ⟨_, List.mem_append_right _ (List.mem_singleton_self _), rfl, rfl⟩

theorem resume_calls {s : BusLog} (i : Nat) {p : Processing} (herrors : p.errors = [])
    (h : LiveSet.next (s.bus.handlersOf p.object.event.kind) p.place = none) :
    ∃ call ∈ (s.resume i p).calls, call.path = p.path ∧ call.result = .ok () := by
  rw [resume, h]
  exact ⟨_, List.mem_append_right _ (List.mem_singleton_self _), rfl, resultOf_eq_ok.mpr herrors⟩

/-- The overflow path returns without an error unless a handler of the overflow event fails. -/
theorem reported_of_delivered {s : BusLog} {i : BusInput}
    (hstep : ∀ call ∈ (step env s i).calls, call.Delivered) : Reported s i := by
  cases i with
  | emit object now trimNow =>
    intro hopen hfull hempty
    rw [step, EventBus.emit, if_neg (by simp [hopen]), if_pos hfull] at hstep
    set s' : BusLog := { s with bus := { s.bus with sequence := s.bus.sequence + 1 } }
    have hempty' : s'.registered (s.bus.overflowEvent env now object.event).event.kind = [] := hempty
    obtain ⟨call, hcall, hpath, hok⟩ := begin_calls .overflow object hempty'
    exact nomatch hpath.symm.trans ((hstep call hcall).handed hok).1
  | settle j outcome =>
    intro p hp hoverflow hnext
    by_contra hfine
    rw [not_or, not_not, not_not] at hfine
    have herrors : (p.record env outcome).errors = [] := errors_record_eq_nil.mpr hfine
    obtain ⟨call, hcall, hpath, hok⟩ := resume_calls j herrors hnext
    rw [step, hp] at hstep
    exact nomatch (hpath.trans hoverflow).symm.trans ((hstep call hcall).handed hok).1
  | _ => trivial

theorem init_inv (options : EventBusOptions) : Inv (init options) where
  nodup _ := List.nodup_nil
  valid := List.forall_mem_nil _
  delivered := List.forall_mem_nil _

/-- Every emission is delivered or answered with an error throughout a run exactly if each event
that finds the buffer full is reported by a handler of the overflow event. -/
theorem emit_delivered_iff (env : BusEnv) (options : EventBusOptions) (inputs : List BusInput) :
    Run.AllStates (step env) (fun s => ∀ call ∈ s.calls, call.Delivered) (init options) inputs ↔
      Run.AllSteps (step env) Reported (init options) inputs := by
  constructor
  · exact Run.allSteps_of_allStates (fun _ _ hs hi => step_inv hs hi)
      (fun _ _ _ hstep => reported_of_delivered hstep) (init_inv options)
  · intro h
    exact (Run.allStates_of_invariant (fun _ _ hs hi => step_inv hs hi) (init_inv options) h).mono
      fun _ hs => hs.delivered

/-- An event that finds the buffer full is dropped, and its emission returns without an error. -/
theorem emit_drops_event :
    ¬∀ (env : BusEnv) (options : EventBusOptions) (inputs : List BusInput),
      Run.AllStates (step env) (fun s => ∀ call ∈ s.calls, call.Delivered) (init options)
        inputs := by
  intro h
  let env : BusEnv := { sha256 := id, handlerName := fun _ => "", isoText := fun _ => "" }
  let event (n : Nat) : EventObject :=
    ⟨.caller n, { kind := .signal .verifyLint, sequence := n, streamId := "s1", timestamp := "now" }⟩
  let inputs : List BusInput :=
    [.on (.signal .verifyLint) 0, .emit (event 1) 0 0, .emit (event 2) 0 0]
  have hlast := (h env { bufferCapacity := 1 } inputs).last
  have hdropped : (Run.run (step env) (init { bufferCapacity := 1 }) inputs).calls.all
      (fun call => call.path = .accepted || !call.result.isOk) = false := by
    decide
  rw [List.all_eq_true.mpr fun call hcall => (hlast call hcall).accepted_or_failed] at hdropped
  exact Bool.noConfusion hdropped

end BusLog

end KirkForge
