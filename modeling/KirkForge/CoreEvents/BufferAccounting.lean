import KirkForge.CoreEvents.EventBus
import KirkForge.Theory.Lists
import Mathlib.Data.List.Perm.Basic

/-!
# The buffer of the event bus

Whether the buffer holds what is being processed. An emission of a kind without handlers leaves its
event in the buffer, an overflow event is processed without being in it, and the trimming to 500
entries takes out events that are still being processed.
-/

namespace KirkForge.BusLog

variable {env : BusEnv}

/-- The buffer holds what is being processed, and nothing when nothing is. -/
structure Accounted (s : BusLog) : Prop where
  held : (s.bus.buffer.map (·.ref)).Perm (s.processings.map (·.object.ref))
  idle : s.processings = [] → s.bus.buffer = []

/-- An event that is let in has a handler and an overflow event has none, no more than 500 other
events are being processed when one has been, and only an empty buffer is drained. -/
def Unleaking (env : BusEnv) (s : BusLog) : BusInput → Prop
  | .emit object _ _ => s.bus.accepting = true →
      if s.bus.full then s.registered .eventBusOverflowed = []
      else s.bus.idempotency.has (EventBus.makeEventId env object.event) = false →
        s.registered object.event.kind ≠ []
  | .settle i _ => ∀ p, s.processings[i]? = some p →
      LiveSet.next (s.bus.handlersOf p.object.event.kind) p.place = none →
        s.processings.length ≤ 501
  | .drainBuffer => s.processings = []
  | _ => True

theorem Accounted.of_held {s : BusLog}
    (h : (s.bus.buffer.map (·.ref)).Perm (s.processings.map (·.object.ref))) : Accounted s where
  held := h
  idle hs := by
    rw [hs, List.map_nil] at h
    exact List.map_eq_nil_iff.mp h.eq_nil

theorem Accounted.length {s : BusLog} (h : Accounted s) :
    s.bus.buffer.length = s.processings.length := by
  simpa using h.held.length_eq

theorem accounted_iff {s : BusLog} : Accounted s ↔
    (s.bus.buffer.map (·.ref)).Perm (s.processings.map (·.object.ref)) := ⟨Accounted.held, .of_held⟩

/-! ### What a step does to the buffer -/

theorem begin_of_unhandled {s : BusLog} (path : EmitPath) (emitted : EventObject)
    {object : EventObject} (h : s.registered object.event.kind = []) :
    (s.begin path emitted object).bus = s.bus ∧
      (s.begin path emitted object).processings = s.processings := by
  rw [begin, LiveSet.next_zero_eq_none_iff.mpr h]
  exact ⟨rfl, rfl⟩

theorem begin_of_handled {s : BusLog} (path : EmitPath) (emitted : EventObject)
    {object : EventObject} (h : s.registered object.event.kind ≠ []) :
    (s.begin path emitted object).bus.buffer = s.bus.buffer ∧
      (s.begin path emitted object).processings.map (·.object.ref) =
        s.processings.map (·.object.ref) ++ [object.ref] := by
  rw [begin]
  split
  · next hnone => exact absurd (LiveSet.next_zero_eq_none_iff.mp hnone) h
  · simp

/-- Processing an event that is not in the buffer is accounted for if there is nothing to do. -/
theorem begin_accounted_iff {s : BusLog} (h : Accounted s) {path : EmitPath}
    {emitted object : EventObject} :
    Accounted (s.begin path emitted object) ↔ s.registered object.event.kind = [] := by
  rw [accounted_iff]
  constructor
  · intro hbegin
    by_contra hhandled
    obtain ⟨hbuffer, hprocessings⟩ := begin_of_handled path emitted hhandled
    have hlength := hbegin.length_eq
    rw [hbuffer, hprocessings] at hlength
    simp [h.length] at hlength
  · intro hunhandled
    obtain ⟨hbus, hprocessings⟩ := begin_of_unhandled path emitted hunhandled
    rw [hbus, hprocessings]
    exact h.held

/-- Processing an event that was put in the buffer is accounted for if there is something to do. -/
theorem begin_buffered_accounted_iff {s : BusLog} {path : EmitPath} {emitted object : EventObject}
    (h : (s.bus.buffer.map (·.ref)).Perm (s.processings.map (·.object.ref) ++ [object.ref])) :
    Accounted (s.begin path emitted object) ↔ s.registered object.event.kind ≠ [] := by
  rw [accounted_iff]
  constructor
  · intro hbegin hunhandled
    obtain ⟨hbus, hprocessings⟩ := begin_of_unhandled path emitted hunhandled
    rw [hbus, hprocessings] at hbegin
    have hlength := (h.symm.trans hbegin).length_eq
    simp at hlength
  · intro hhandled
    obtain ⟨hbuffer, hprocessings⟩ := begin_of_handled path emitted hhandled
    rw [hbuffer, hprocessings]
    exact h

theorem emit_accounted_iff {s : BusLog} (h : Accounted s) (object : EventObject)
    (now trimNow : Nat) : Accounted (step env s (.emit object now trimNow)) ↔
      Unleaking env s (.emit object now trimNow) := by
  rw [step, EventBus.emit, Unleaking]
  split
  · next hclosed =>
    refine iff_of_true (.of_held h.held) fun hopen => ?_
    simp [hopen] at hclosed
  next hopen =>
  rw [Bool.not_eq_true', Bool.not_eq_false] at hopen
  rw [forall_prop_of_true hopen]
  split
  · next hfull =>
    have hs : Accounted { s with bus := { s.bus with sequence := s.bus.sequence + 1 } } :=
      .of_held h.held
    exact begin_accounted_iff hs
  dsimp only
  split
  · next hduplicate =>
    refine iff_of_true (.of_held h.held) fun hnew => ?_
    simp [hnew] at hduplicate
  · next hnew =>
    rw [Bool.not_eq_true] at hnew
    rw [forall_prop_of_true hnew]
    apply begin_buffered_accounted_iff
    simpa [EventBus.trimIdempotency] using h.held.append_right [object.ref]

/-- A finished event is taken out of the buffer; more than 500 others are not all kept. -/
theorem finish_held_iff {bus : EventBus} {object : EventObject} {refs : List EventRef}
    (h : (bus.buffer.map (·.ref)).Perm (object.ref :: refs)) :
    ((bus.finish object).buffer.map (·.ref)).Perm refs ↔ refs.length ≤ 500 := by
  have hmap : (bus.buffer.eraseP fun o => o.ref = object.ref).map (·.ref) =
      (bus.buffer.map (·.ref)).erase object.ref := by
    rw [List.erase_eq_eraseP', List.eraseP_map]
    rfl
  have herase : ((bus.buffer.eraseP fun o => o.ref = object.ref).map (·.ref)).Perm refs := by
    rw [hmap]
    simpa using h.erase object.ref
  have hlength := herase.length_eq
  rw [List.length_map] at hlength
  dsimp only [EventBus.finish]
  split
  · next hlong =>
    refine iff_of_false (fun hkept => ?_) (by omega)
    have hkept_length := hkept.length_eq
    simp only [List.length_map, List.length_drop] at hkept_length
    omega
  · exact iff_of_true herase (by omega)

theorem settle_accounted_iff {s : BusLog} (h : Accounted s) (i : Nat) (outcome : HandlerOutcome) :
    Accounted (step env s (.settle i outcome)) ↔ Unleaking env s (.settle i outcome) := by
  rw [step, Unleaking]
  split
  · next hnone => exact iff_of_true h (by simp [hnone])
  next p hp =>
  rw [hp]
  simp only [Option.some.injEq, forall_eq']
  obtain ⟨front, back, hprocessings, rfl⟩ := Lists.exists_split hp
  rw [resume, Processing.record]
  split
  · next hnext =>
    refine iff_of_true (.of_held ?_) (by simp [hnext])
    simpa [hprocessings] using h.held
  · next hnext =>
    have hheld : (s.bus.buffer.map (·.ref)).Perm
        (p.object.ref :: (front ++ back).map (·.object.ref)) := by
      refine h.held.trans ?_
      rw [hprocessings, List.map_append, List.map_cons, List.map_append]
      exact List.perm_middle
    have herase : s.processings.eraseIdx front.length = front ++ back := by
      simp [hprocessings, List.eraseIdx_append_of_length_le]
    rw [accounted_iff, forall_prop_of_true hnext]
    simp only [herase]
    rw [finish_held_iff hheld, hprocessings]
    simp only [List.length_map, List.length_append, List.length_cons]
    omega

/-- Each call keeps the account exactly if it does not leak. -/
theorem step_accounted_iff {s : BusLog} (h : Accounted s) (i : BusInput) :
    Accounted (step env s i) ↔ Unleaking env s i := by
  cases i with
  | on => exact iff_of_true (.of_held h.held) trivial
  | unsubscribe kind handler =>
    refine iff_of_true (.of_held ?_) trivial
    have hrefs : (step env s (.unsubscribe kind handler)).processings.map (·.object.ref) =
        s.processings.map (·.object.ref) := by
      simp only [step, List.map_map]
      refine List.map_congr_left fun p _ => ?_
      simp only [Function.comp]
      split <;> rfl
    rw [hrefs]
    exact h.held
  | emit object now trimNow => exact emit_accounted_iff h object now trimNow
  | settle j outcome => exact settle_accounted_iff h j outcome
  | drainBuffer =>
    rw [accounted_iff, Unleaking]
    simp [step, EventBus.drainBuffer]
  | shutdown => exact iff_of_true (.of_held h.held) trivial
  | gracefulShutdown =>
    refine iff_of_true (.of_held ?_) trivial
    simp only [step, EventBus.gracefulShutdown]
    split <;> exact h.held
  | gracefulShutdownEnds =>
    refine iff_of_true (.of_held ?_) trivial
    simp only [step, EventBus.gracefulShutdownEnds]
    split <;> exact h.held

/-- The buffer is accounted for throughout a run exactly if no call leaks. -/
theorem buffer_accounted_iff (env : BusEnv) (options : EventBusOptions) (inputs : List BusInput) :
    Run.AllStates (step env) Accounted (init options) inputs ↔
      Run.AllSteps (step env) (Unleaking env) (init options) inputs := by
  have hinit : Accounted (init options) := .of_held (.refl _)
  constructor
  · exact Run.allSteps_of_allStates (fun s i hs hi => (step_accounted_iff hs i).mpr hi)
      (fun s i hs h => (step_accounted_iff hs i).mp h) hinit
  · exact Run.allStates_of_invariant (fun s i hs hi => (step_accounted_iff hs i).mpr hi) hinit

/-- An emission of a kind without handlers stays in the buffer. -/
theorem buffer_keeps_processed_event :
    ¬∀ (env : BusEnv) (options : EventBusOptions) (inputs : List BusInput),
      Run.AllStates (step env) Accounted (init options) inputs := by
  intro h
  let env : BusEnv := { sha256 := id, handlerName := fun _ => "", isoText := fun _ => "" }
  let event : KirkForgeEvent :=
    { kind := .signal .verifyLint, sequence := 1, streamId := "s1", timestamp := "now" }
  have hlast := (h env {} [.emit ⟨.caller 0, event⟩ 0 0]).last
  exact absurd (hlast.idle rfl) (by decide)

end KirkForge.BusLog
