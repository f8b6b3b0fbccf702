import KirkForge.CoreTypes.Events
import KirkForge.Theory.Json
import KirkForge.Theory.ToolProcess

/-!
# Reports of type verifiers

What `TscEmitter` and `PyrightEmitter` (`tool-tsc/src/index.ts`, `tool-pyright/src/index.ts`) have
in common: the report, the `verify.types` event made of it, and the `try` block around the tool. An
error in the block, be it of the tool, of its output or of the event bus, is reported by an event of
status `error`.
-/

namespace KirkForge

/-- An entry of the details. The declared types are a number and two strings, but Pyright's output
is not checked. -/
structure TypeDetail where
  file : String
  line : Json
  code : Json
  message : Json
  deriving DecidableEq

structure TypesReport where
  taskId : String
  errors : Json
  durationMs : Nat
  details : List TypeDetail
  deriving DecidableEq

/-- A `verify.types` event; its stream is the task. -/
structure TypesEvent where
  taskId : String
  status : VerifierStatus
  error : Option String := none
  errors : Json
  durationMs : Nat
  details : List TypeDetail
  timestamp : String
  deriving DecidableEq

/-- The surroundings of an emission: the time that the tool takes, the time of day, and the event
bus, if there is one, by the message of the error with which it rejects an event. -/
structure EmitEnv where
  elapsedMs : Nat
  now : String
  eventBus : Option (TypesEvent → Option String)

/-- The events that the bus was given, and what the promise of `emit` is settled to: an error of the
outer kind rejects it. -/
structure TypesEmission where
  events : List TypesEvent
  result : Except String (Except String TypesReport)

namespace TypesReport

def event (r : TypesReport) (env : EmitEnv) (status : VerifierStatus)
    (error : Option String := none) : TypesEvent where
  taskId := r.taskId
  status
  error
  errors := r.errors
  durationMs := r.durationMs
  details := r.details
  timestamp := env.now

end TypesReport

namespace EmitEnv

variable (env : EmitEnv)

/-- `await eventBus?.emit(event)`, after the events before. -/
def publish (sent : List TypesEvent) (event : TypesEvent) : List TypesEvent × Except String Unit :=
  match env.eventBus with
  | none => (sent, .ok ())
  | some rejects =>
    (sent ++ [event], match rejects event with
      | some message => .error message
      | none => .ok ())

/-- Publish an event and return. -/
def publishAndReturn (sent : List TypesEvent) (event : TypesEvent)
    (result : Except String TypesReport) : TypesEmission :=
  let (events, outcome) := env.publish sent event
  { events, result := outcome.map fun _ => result }

/-- The report of a task for which there is nothing to verify. -/
def skip (taskId : String) : TypesEmission :=
  let report : TypesReport := { taskId, errors := .num 0, durationMs := 0, details := [] }
  env.publishAndReturn [] (report.event env .skipped) (.ok report)

/-- The `catch` block: what is caught is either that the tool is missing or some other error. -/
def failed (tool taskId : String) (missingTool : String → Bool) (sent : List TypesEvent)
    (message : String) : TypesEmission :=
  let detail (code message : String) : TypeDetail :=
    { file := "<" ++ tool ++ ">", line := .num 0, code := .str code, message := .str message }
  if missingTool message then
    let detailMessage := tool ++ " binary not found in PATH; type-check did not run. " ++ message
    let report : TypesReport := {
      taskId, errors := .num 1, durationMs := 0
      details := [detail "VERIFIER_MISSING_BINARY" detailMessage] }
    env.publishAndReturn sent (report.event env .error (some detailMessage)) (.error detailMessage)
  else
    let report : TypesReport := {
      taskId, errors := .num 1, durationMs := env.elapsedMs
      details := [detail "VERIFIER_ERROR" message] }
    env.publishAndReturn sent (report.event env .error (some message)) (.ok report)

/-- The `try` statement: the check ends with a report and a status, or throws. -/
def report (tool taskId : String) (missingTool : String → Bool)
    (check : Except String (TypesReport × VerifierStatus)) : TypesEmission :=
  match check with
  | .error message => env.failed tool taskId missingTool [] message
  | .ok (report, status) =>
    match env.publish [] (report.event env status) with
    | (events, .ok ()) => { events, result := .ok (.ok report) }
    | (events, .error message) => env.failed tool taskId missingTool events message

end EmitEnv

/-! ### Failing closed -/

/-- A pass is emitted only for a process that has succeeded, and of a process that has not, if it
was to run, every event says that it failed or that there was an error; there is one if anyone is
told. -/
structure TypesEmission.FailsClosed (e : TypesEmission) (env : EmitEnv) (started : Prop)
    (p : ToolProcess) : Prop where
  pass : ∀ event ∈ e.events, event.status = .pass → p.Succeeded
  failed : started → ¬p.Succeeded → (env.eventBus ≠ none → e.events ≠ []) ∧
    ∀ event ∈ e.events, event.status = .fail ∨ event.status = .error

variable {env : EmitEnv} {tool taskId : String} {missingTool : String → Bool}

theorem EmitEnv.events_publish (sent : List TypesEvent) (event : TypesEvent) :
    (env.publish sent event).1 =
      sent ++ if env.eventBus = none then [] else [event] := by
  rw [publish]
  cases env.eventBus <;> simp

theorem EmitEnv.events_publishAndReturn (sent : List TypesEvent) (event : TypesEvent)
    (result : Except String TypesReport) : (env.publishAndReturn sent event result).events =
      sent ++ if env.eventBus = none then [] else [event] :=
  events_publish sent event

/-- Whatever is caught, one event of status `error` is added. -/
theorem EmitEnv.events_failed (sent : List TypesEvent) (message : String) :
    ∃ event, event.status = .error ∧ (env.failed tool taskId missingTool sent message).events =
      sent ++ if env.eventBus = none then [] else [event] := by
  rw [failed]
  split
  · exact ⟨_, rfl, events_publishAndReturn ..⟩
  · exact ⟨_, rfl, events_publishAndReturn ..⟩

/-- A skipped task is no pass, and nothing was started for it. -/
theorem EmitEnv.failsClosed_skip (p : ToolProcess) : (env.skip taskId).FailsClosed env False p where
  pass := by
    intro event hevent hpass
    rw [skip, events_publishAndReturn, List.nil_append] at hevent
    split at hevent
    · cases hevent
    · obtain rfl := List.mem_singleton.mp hevent
      cases hpass
  failed := False.elim

/-- With a bus the event of the status comes first, if the check has come to one, and events of
status `error` are all that may follow. -/
theorem EmitEnv.events_report {check : Except String (TypesReport × VerifierStatus)}
    (hbus : env.eventBus ≠ none) : ∃ errors : List TypesEvent,
      (∀ event ∈ errors, event.status = .error) ∧
      match check with
      | .error _ => errors ≠ [] ∧ (env.report tool taskId missingTool check).events = errors
      | .ok r => (env.report tool taskId missingTool check).events =
          r.1.event env r.2 :: errors := by
  cases check with
  | error message =>
    obtain ⟨event, herror, h⟩ := @events_failed env tool taskId missingTool [] message
    rw [if_neg hbus] at h
    exact ⟨[event], List.forall_mem_singleton.mpr herror, List.cons_ne_nil _ _, h⟩
  | ok r =>
    have hevents := @events_publish env [] (r.1.event env r.2)
    rw [if_neg hbus, List.nil_append] at hevents
    simp only [report]
    cases hpublish : env.publish [] (r.1.event env r.2) with
    | mk events outcome =>
      obtain rfl : events = _ := (congrArg Prod.fst hpublish).symm.trans hevents
      cases outcome with
      | ok => exact ⟨[], List.forall_mem_nil _, rfl⟩
      | error message =>
        obtain ⟨event, herror, h⟩ :=
          @events_failed env tool taskId missingTool [r.1.event env r.2] message
        rw [if_neg hbus] at h
        exact ⟨[event], List.forall_mem_singleton.mpr herror, h⟩

theorem EmitEnv.events_report_of_none {check : Except String (TypesReport × VerifierStatus)}
    (hbus : env.eventBus = none) : (env.report tool taskId missingTool check).events = [] := by
  cases check with
  | error message =>
    obtain ⟨event, -, h⟩ := @events_failed env tool taskId missingTool [] message
    rw [if_pos hbus] at h
    exact h
  | ok r => simp only [report, publish, hbus]

/-- A `try` block that ends with a pass or a failure fails closed if and only if it ends with a pass
only for a process that has succeeded. -/
theorem EmitEnv.failsClosed_report_iff {check : Except String (TypesReport × VerifierStatus)}
    {p : ToolProcess} (hstatus : ∀ r, check = .ok r → r.2 = .pass ∨ r.2 = .fail) :
    (env.report tool taskId missingTool check).FailsClosed env True p ↔
      env.eventBus = none ∨ p.Succeeded ∨ ¬∃ r, check = .ok (r, .pass) := by
  by_cases hbus : env.eventBus = none
  · have hevents := @events_report_of_none env tool taskId missingTool check hbus
    refine iff_of_true ⟨?_, fun _ _ => ⟨absurd hbus, ?_⟩⟩ (.inl hbus)
    all_goals
      rw [hevents]
      nofun
  obtain ⟨errors, herrors, hevents⟩ := @events_report env tool taskId missingTool check hbus
  rw [or_iff_right hbus]
  cases check with
  | error message =>
    obtain ⟨hne, hevents⟩ := hevents
    refine iff_of_true ⟨?_, fun _ _ => ⟨fun _ => ?_, ?_⟩⟩ (.inr nofun) <;> rw [hevents]
    · intro event hevent hpass
      rw [herrors event hevent] at hpass
      cases hpass
    · exact hne
    · exact fun event hevent => .inr (herrors event hevent)
  | ok r =>
    obtain ⟨r, status⟩ := r
    constructor
    · intro h
      by_cases hpass : status = .pass
      · subst hpass
        refine .inl (h.pass (r.event env .pass) ?_ rfl)
        rw [hevents]
        exact List.mem_cons_self
      · exact .inr fun ⟨r', h'⟩ => hpass (Prod.mk.inj (Except.ok.inj h')).2
    · intro h
      have hpass : status = .pass → p.Succeeded := fun hstatus =>
        h.resolve_right fun hnot => hnot ⟨r, by rw [hstatus]⟩
      refine ⟨?_, fun _ hfailed => ⟨fun _ => ?_, ?_⟩⟩ <;> rw [hevents]
      · intro event hevent heq
        rcases List.mem_cons.mp hevent with rfl | hevent
        · exact hpass heq
        · rw [herrors event hevent] at heq
          cases heq
      · exact List.cons_ne_nil _ _
      · intro event hevent
        rcases List.mem_cons.mp hevent with rfl | hevent
        · exact .inl ((hstatus _ rfl).resolve_left fun heq => hfailed (hpass heq))
        · exact .inr (herrors event hevent)

end KirkForge
