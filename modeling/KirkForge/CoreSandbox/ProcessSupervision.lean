import KirkForge.CoreSandbox.OutputCollection
import KirkForge.CoreSandbox.PathContainment
import KirkForge.Theory.Run
import Mathlib.Algebra.Order.Ring.Rat

/-!
# The run of a sandboxed process

What `runSandboxed` (`core-sandbox/src/runner.ts`) does once the process is spawned: the handlers of
its output, of its end, of the timer and of the interval in which its memory is read. In whatever
order the events come, the promise is settled by the first one that ends the process, the group of
the process is killed at most once and never after that, and the outcome says what has happened up
to there (`supervised`).
-/

namespace KirkForge

inductive ProcessEvent
  | data (e : DataEvent)
  | timeout
  /-- The interval has passed; `VmRSS` in kB, where it can be read. -/
  | sample (rssKb : Option Nat)
  | close (code : Option Int) (durationMs : Int)
  | error (message : String)

structure SandboxResult where
  success : Bool
  exitCode : Option Int
  stdout : String
  stderr : String
  durationMs : Int
  peakMemoryMb : Option ℚ
  violations : List SandboxViolation
  truncated : Bool

abbrev SandboxOutcome := Except SandboxExecutionError SandboxResult

structure ChildProcess where
  pid : Option Nat
  isLinux : Bool

/-- The variables that the handlers share. -/
structure Supervision where
  /-- The timer is not cleared and has not gone off. -/
  timer : Bool := true
  sampling : Bool := true
  killed : Bool := false
  output : OutputState
  peakMemoryMb : Option ℚ := none
  /-- The process groups that were sent `SIGKILL`. -/
  signalled : List Nat := []
  /-- What `afterHook` was called with. -/
  hooked : List SandboxResult := []
  /-- What the promise was resolved with first. -/
  outcome : Option SandboxOutcome := none

namespace Supervision

def timeViolation (constraints : RequiredConstraints) : SandboxViolation where
  type := .time
  message := "Process exceeded maxTimeMs=" ++ constraints.maxTimeMs.text

def executionError (violations : List SandboxViolation) : SandboxExecutionError where
  message := "Sandbox execution failed with " ++ toString violations.length ++ " violation(s): " ++
    Text.join "; " (violations.map (·.message))
  violations := violations

def spawnError (command message : String) : SandboxExecutionError where
  message := "Process spawn error: " ++ message
  violations := [{ type := .command, message, target := some command }]

/-- The result of a process that is closed. -/
def result (s : Supervision) (code : Option Int) (durationMs : Int) : SandboxResult where
  success := !s.killed && code = some 0
  exitCode := code
  stdout := s.output.stdout.text
  stderr := s.output.stderr.text
  durationMs := durationMs
  peakMemoryMb := s.peakMemoryMb
  violations := s.output.violations
  truncated := s.output.truncated

def settle (s : Supervision) (outcome : SandboxOutcome) : Supervision :=
  { s with outcome := s.outcome <|> some outcome }

def clearTimers (s : Supervision) : Supervision := { s with timer := false, sampling := false }

def onTimeout (constraints : RequiredConstraints) (child : ChildProcess) (s : Supervision) :
    Supervision :=
  { s with
    timer := false
    killed := true
    output := { s.output with violations := s.output.violations ++ [timeViolation constraints] }
    signalled := s.signalled ++ child.pid.toList }

def onSample (child : ChildProcess) (s : Supervision) (rssKb : Option Nat) : Supervision :=
  if child.pid = none || !child.isLinux then s
  else
    match rssKb with
    | none => s
    | some kb =>
      let mb : ℚ := kb / 1024
      match s.peakMemoryMb with
      | none => { s with peakMemoryMb := some mb }
      | some peak => if peak < mb then { s with peakMemoryMb := some mb } else s

/-- Something else is wrong than too much output. -/
def fails (s : Supervision) : Bool :=
  0 < s.output.violations.length &&
    (s.killed || s.output.violations.any fun v => v.type ≠ .outputSize)

def onClose (s : Supervision) (code : Option Int) (durationMs : Int) : Supervision :=
  let result := s.result code durationMs
  let s := { s.clearTimers with hooked := s.hooked ++ [result] }
  s.settle (if s.fails then .error (executionError s.output.violations) else .ok result)

def step (constraints : RequiredConstraints) (command : String) (child : ChildProcess)
    (s : Supervision) : ProcessEvent → Supervision
  | .data e => { s with output := onData constraints s.output e }
  | .timeout => if s.timer then s.onTimeout constraints child else s
  | .sample rssKb => if s.sampling then s.onSample child rssKb else s
  | .close code durationMs => s.onClose code durationMs
  | .error message => s.clearTimers.settle (.error (spawnError command message))

/-- The process is spawned, with the violations of the scans before. -/
def start (violations : List SandboxViolation) : Supervision where
  output := { violations }

end Supervision

open Supervision

/-- The run of a configuration that passes the checks, on the events of its process. The scan of the
arguments has found nothing then. -/
def SandboxRunConfig.supervise (config : SandboxRunConfig) (child : ChildProcess)
    (events : List ProcessEvent) : Supervision :=
  Run.run (step config.required config.command child) (start (scanEnvForSecrets config.env)) events

/-! ### What the events say -/

namespace ProcessEvent

def isEnd : ProcessEvent → Bool
  | close .. | error _ => true
  | _ => false

/-- The events up to the end of the process. -/
def lifetime (events : List ProcessEvent) : List ProcessEvent := events.takeWhile fun e => !e.isEnd

def ending (events : List ProcessEvent) : Option ProcessEvent := events.find? isEnd

def isTimeout : ProcessEvent → Bool
  | timeout => true
  | _ => false

def timedOut (events : List ProcessEvent) : Bool := events.any isTimeout

def dataOf (events : List ProcessEvent) : List DataEvent :=
  events.filterMap fun
    | data e => some e
    | _ => none

/-- The largest value that was read. -/
def peakOf (child : ChildProcess) (events : List ProcessEvent) : Option ℚ :=
  if child.pid = none || !child.isLinux then none
  else
    (events.filterMap fun
      | sample (some kb) => some ((kb : ℚ) / 1024)
      | _ => none).max?

end ProcessEvent

open ProcessEvent

/-- The supervision of a process is as its events up to its end say. -/
structure Supervised (constraints : RequiredConstraints) (command : String) (child : ChildProcess)
    (scans : List SandboxViolation) (events : List ProcessEvent) (s : Supervision) : Prop where
  pending : ending events = none → s.outcome = none
  spawn : ∀ message, ending events = some (.error message) →
    s.outcome = some (.error (spawnError command message))
  ok : ∀ code durationMs, ending events = some (.close code durationMs) → scans = [] →
    timedOut (lifetime events) = false →
      s.outcome = some (.ok
        { success := code = some 0
          exitCode := code
          stdout := (collectOutput constraints [] (dataOf (lifetime events))).capture.text .stdout
          stderr := (collectOutput constraints [] (dataOf (lifetime events))).capture.text .stderr
          durationMs
          peakMemoryMb := peakOf child (lifetime events)
          violations := (collectOutput constraints [] (dataOf (lifetime events))).violations
          truncated :=
            (collectOutput constraints [] (dataOf (lifetime events))).capture.truncated })
  failed : ∀ code durationMs, ending events = some (.close code durationMs) →
    scans ≠ [] ∨ timedOut (lifetime events) = true →
      ∃ violations, s.outcome = some (.error (executionError violations)) ∧
        violations.Perm (scans ++
          (if timedOut (lifetime events) then [timeViolation constraints] else []) ++
          (collectOutput constraints [] (dataOf (lifetime events))).violations)
  signalled : s.signalled = if timedOut (lifetime events) then child.pid.toList else []

/-! ### Output next to other violations -/

variable {constraints : RequiredConstraints} {command : String} {child : ChildProcess}
  {scans extra : List SandboxViolation} {events : List ProcessEvent} {s : Supervision}

/-- The same output, and more violations. -/
structure Reports (extra : List SandboxViolation) (s t : OutputState) : Prop where
  streams : ∀ stream, s.of stream = t.of stream
  truncated : s.truncated = t.truncated
  violations : s.violations.Perm (extra ++ t.violations)

theorem Reports.put {s t : OutputState} (h : Reports extra s t) (c : Collected)
    (stream : OutputStream) : Reports extra (s.put c stream) (t.put c stream) where
  streams stream' := by rw [OutputState.of_put, OutputState.of_put, h.streams]
  truncated := by rw [OutputState.truncated_put, OutputState.truncated_put, h.truncated]
  violations := by cases stream <;> exact h.violations

theorem Reports.exceed {s t : OutputState} (h : Reports extra s t) (stream : OutputStream) :
    Reports extra (s.exceed constraints stream) (t.exceed constraints stream) where
  streams stream' := by rw [OutputState.of_exceed, OutputState.of_exceed, h.streams]
  truncated := by rw [OutputState.truncated_exceed, OutputState.truncated_exceed]
  violations := by
    unfold OutputState.exceed
    rw [h.truncated]
    split
    · exact h.violations
    · rw [← List.append_assoc]
      exact h.violations.append_right _

theorem Reports.onData {s t : OutputState} (h : Reports extra s t) (e : DataEvent) :
    Reports extra (onData constraints s e) (onData constraints t e) := by
  unfold KirkForge.onData
  dsimp only
  rw [h.streams]
  split
  · exact (h.put _ _).exceed _
  · exact h.put _ _

theorem type_onData {t : OutputState} (h : ∀ v ∈ t.violations, v.type = .outputSize)
    (e : DataEvent) : ∀ v ∈ (onData constraints t e).violations, v.type = .outputSize := by
  have hput (c : Collected) : (t.put c e.stream).violations = t.violations := by
    cases e.stream <;> rfl
  unfold onData
  dsimp only
  split
  · unfold OutputState.exceed
    split
    · rwa [hput]
    · intro v hv
      rw [hput, List.mem_append, List.mem_singleton] at hv
      rcases hv with hv | rfl
      · exact h v hv
      · rfl
  · rwa [hput]

theorem type_collectOutput (events : List DataEvent) :
    ∀ v ∈ (collectOutput constraints [] events).violations, v.type = .outputSize := by
  have hfold (t : OutputState) (ht : ∀ v ∈ t.violations, v.type = .outputSize) :
      ∀ v ∈ (events.foldl (onData constraints) t).violations, v.type = .outputSize := by
    induction events generalizing t with
    | nil => exact ht
    | cons e events ih => exact ih _ (type_onData ht e)
  exact hfold { violations := [] } fun _ hv => absurd hv List.not_mem_nil

/-! ### While the process runs -/

theorem collectOutput_concat (violations : List SandboxViolation) (events : List DataEvent)
    (e : DataEvent) : collectOutput constraints violations (events ++ [e]) =
      onData constraints (collectOutput constraints violations events) e := by
  rw [collectOutput, List.foldl_append]
  rfl

/-- What the handlers know of a process that has not ended. -/
structure Alive (constraints : RequiredConstraints) (child : ChildProcess)
    (scans : List SandboxViolation) (events : List ProcessEvent) (s : Supervision) : Prop where
  outcome : s.outcome = none
  sampling : s.sampling = true
  timer : s.timer = !timedOut events
  killed : s.killed = timedOut events
  signalled : s.signalled = if timedOut events then child.pid.toList else []
  peak : s.peakMemoryMb = peakOf child events
  output : Reports (scans ++ if timedOut events then [timeViolation constraints] else []) s.output
    (collectOutput constraints [] (dataOf events))
  intime : timedOut events = false → s.output = collectOutput constraints scans (dataOf events)

theorem alive_start (constraints : RequiredConstraints) (child : ChildProcess)
    (scans : List SandboxViolation) : Alive constraints child scans [] (start scans) where
  outcome := rfl
  sampling := rfl
  timer := rfl
  killed := rfl
  signalled := rfl
  peak := by
    unfold peakOf
    split <;> rfl
  output := ⟨fun stream => by cases stream <;> rfl, rfl, by
    simp [start, collectOutput, dataOf, timedOut]⟩
  intime _ := rfl

theorem timedOut_concat (events : List ProcessEvent) (e : ProcessEvent) :
    timedOut (events ++ [e]) = (timedOut events || e.isTimeout) := by
  simp [timedOut]

theorem dataOf_concat (events : List ProcessEvent) (e : ProcessEvent) :
    dataOf (events ++ [e]) = dataOf events ++ dataOf [e] := List.filterMap_append ..

/-- Events that no value is read in leave the largest value. -/
theorem peakOf_concat {e : ProcessEvent} (he : ∀ kb, e ≠ .sample (some kb))
    (events : List ProcessEvent) : peakOf child (events ++ [e]) = peakOf child events := by
  unfold peakOf
  rw [List.filterMap_append]
  cases e with
  | sample rssKb =>
    cases rssKb with
    | none => simp
    | some kb => exact absurd rfl (he kb)
  | data | timeout | close | error => simp

/-- The state says of other events what it says of these, if they say the same. -/
theorem Alive.congr (h : Alive constraints child scans events s) {events' : List ProcessEvent}
    (htime : timedOut events' = timedOut events) (hdata : dataOf events' = dataOf events)
    (hpeak : peakOf child events' = peakOf child events) :
    Alive constraints child scans events' s where
  outcome := h.outcome
  sampling := h.sampling
  timer := by rw [htime, h.timer]
  killed := by rw [htime, h.killed]
  signalled := by rw [htime, h.signalled]
  peak := by rw [hpeak, h.peak]
  output := by
    rw [htime, hdata]
    exact h.output
  intime hintime := by rw [hdata, h.intime (htime.symm.trans hintime)]

theorem Alive.data (h : Alive constraints child scans events s) (e : DataEvent) :
    Alive constraints child scans (events ++ [.data e])
      (step constraints command child s (.data e)) := by
  have htime : timedOut (events ++ [.data e]) = timedOut events := by
    rw [timedOut_concat]
    exact Bool.or_false _
  have hdata : dataOf (events ++ [.data e]) = dataOf events ++ [e] := dataOf_concat events _
  have hpeak : peakOf child (events ++ [.data e]) = peakOf child events :=
    peakOf_concat (by rintro _ ⟨⟩) events
  refine ⟨h.outcome, h.sampling, ?_, ?_, ?_, ?_, ?_, fun hintime => ?_⟩
  · rw [htime]
    exact h.timer
  · rw [htime]
    exact h.killed
  · rw [htime]
    exact h.signalled
  · rw [hpeak]
    exact h.peak
  · rw [htime, hdata, collectOutput_concat]
    exact h.output.onData e
  · rw [htime] at hintime
    rw [hdata, collectOutput_concat, ← h.intime hintime]
    rfl

theorem Alive.timeout (h : Alive constraints child scans events s) :
    Alive constraints child scans (events ++ [.timeout])
      (step constraints command child s .timeout) := by
  have htime : timedOut (events ++ [.timeout]) = true := by
    rw [timedOut_concat]
    exact Bool.or_true _
  have hdata : dataOf (events ++ [.timeout]) = dataOf events :=
    (dataOf_concat events _).trans (List.append_nil _)
  have hpeak : peakOf child (events ++ [.timeout]) = peakOf child events :=
    peakOf_concat (by rintro _ ⟨⟩) events
  cases hbefore : timedOut events with
  | true =>
    -- the timer has gone off before
    have hstep : step constraints command child s .timeout = s := by
      rw [step, h.timer, hbefore, Bool.not_true, if_neg Bool.false_ne_true]
    rw [hstep]
    exact h.congr (htime.trans hbefore.symm) hdata hpeak
  | false =>
    have hstep : step constraints command child s .timeout = s.onTimeout constraints child := by
      rw [step, h.timer, hbefore, Bool.not_false, if_pos rfl]
    have hnone : s.signalled = [] := by rw [h.signalled, hbefore, if_neg Bool.false_ne_true]
    have hreports := h.output
    rw [hbefore, if_neg Bool.false_ne_true, List.append_nil] at hreports
    rw [hstep]
    refine ⟨h.outcome, h.sampling, ?_, ?_, ?_, ?_, ?_, fun hintime => ?_⟩
    · rw [htime]
      rfl
    · rw [htime]
      rfl
    · rw [htime, if_pos rfl, onTimeout, hnone, List.nil_append]
    · rw [hpeak]
      exact h.peak
    · rw [htime, hdata, if_pos rfl]
      refine ⟨fun stream => ?_, hreports.truncated, ?_⟩
      · rw [← hreports.streams stream]
        cases stream <;> rfl
      · refine (hreports.violations.append_right [timeViolation constraints]).trans ?_
        rw [List.append_assoc, List.append_assoc]
        exact List.perm_append_comm.append_left scans
    · rw [htime] at hintime
      exact absurd hintime Bool.true_eq_false.mp

/-- One more value that is read. -/
theorem peakOf_sample (hchild : ¬(child.pid = none || !child.isLinux) = true)
    (events : List ProcessEvent) (kb : Nat) :
    peakOf child (events ++ [.sample (some kb)]) =
      some ((peakOf child events).elim ((kb : ℚ) / 1024) (max · ((kb : ℚ) / 1024))) := by
  unfold peakOf
  rw [if_neg hchild, if_neg hchild, List.filterMap_append]
  generalize List.filterMap _ events = values
  cases values with
  | nil => rfl
  | cons v values =>
    show ((v :: values) ++ [(kb : ℚ) / 1024]).max? = _
    rw [List.cons_append, List.max?_cons', List.max?_cons', List.foldl_append]
    rfl

theorem Alive.sample (h : Alive constraints child scans events s) (rssKb : Option Nat) :
    Alive constraints child scans (events ++ [.sample rssKb])
      (step constraints command child s (.sample rssKb)) := by
  have htime : timedOut (events ++ [.sample rssKb]) = timedOut events := by
    rw [timedOut_concat]
    exact Bool.or_false _
  have hdata : dataOf (events ++ [.sample rssKb]) = dataOf events :=
    (dataOf_concat events _).trans (List.append_nil _)
  rw [step, h.sampling, if_pos rfl]
  unfold onSample
  split
  · next hchild =>
    have hnone (events : List ProcessEvent) : peakOf child events = none := if_pos hchild
    exact h.congr htime hdata (by rw [hnone, hnone])
  · next hchild =>
    cases rssKb with
    | none => exact h.congr htime hdata (peakOf_concat (by rintro _ ⟨⟩) events)
    | some kb =>
      have hpeak := peakOf_sample hchild events kb
      have hset (peak : Option ℚ) (heq : peak = peakOf child (events ++ [.sample (some kb)])) :
          Alive constraints child scans (events ++ [.sample (some kb)])
            { s with peakMemoryMb := peak } := by
        refine ⟨h.outcome, h.sampling, ?_, ?_, ?_, heq, ?_, fun hintime => ?_⟩
        · rw [htime]
          exact h.timer
        · rw [htime]
          exact h.killed
        · rw [htime]
          exact h.signalled
        · rw [htime, hdata]
          exact h.output
        · rw [hdata]
          exact h.intime (htime.symm.trans hintime)
      rw [← h.peak] at hpeak
      dsimp only
      split
      · next hnone =>
        rw [hnone] at hpeak
        exact hset _ hpeak.symm
      · next peak hsome =>
        rw [hsome] at hpeak
        split
        · next hlt =>
          exact hset _ (by rw [hpeak, Option.elim_some, max_eq_right hlt.le])
        · next hle =>
          have hkept := hset (some peak) (by
            rw [hpeak, Option.elim_some, max_eq_left (not_lt.mp hle)])
          rwa [← hsome] at hkept

theorem Alive.step (h : Alive constraints child scans events s) {e : ProcessEvent}
    (he : e.isEnd = false) :
    Alive constraints child scans (events ++ [e]) (step constraints command child s e) := by
  cases e with
  | data e => exact h.data e
  | timeout => exact h.timeout
  | sample rssKb => exact h.sample rssKb
  | close | error => cases he

theorem Alive.run (h : Alive constraints child scans events s) {more : List ProcessEvent}
    (hmore : ∀ e ∈ more, e.isEnd = false) :
    Alive constraints child scans (events ++ more)
      (Run.run (Supervision.step constraints command child) s more) := by
  induction more generalizing events s with
  | nil => rwa [List.append_nil]
  | cons e more ih =>
    obtain ⟨he, hmore⟩ := List.forall_mem_cons.mp hmore
    have hstep : Alive constraints child scans (events ++ [e])
        (Supervision.step constraints command child s e) := h.step he
    have hrest := ih hstep hmore
    rwa [List.append_assoc, List.singleton_append] at hrest

/-! ### The end -/

/-- The promise is settled, and the timer is cleared. -/
structure Over (outcome : SandboxOutcome) (signalled : List Nat) (s : Supervision) : Prop where
  outcome : s.outcome = some outcome
  timer : s.timer = false
  signalled : s.signalled = signalled

theorem Over.step {outcome : SandboxOutcome} {signalled : List Nat} (h : Over outcome signalled s)
    (e : ProcessEvent) :
    Over outcome signalled (Supervision.step constraints command child s e) := by
  cases e with
  | data e => exact ⟨h.outcome, h.timer, h.signalled⟩
  | timeout =>
    rw [Supervision.step, h.timer, if_neg Bool.false_ne_true]
    exact h
  | sample rssKb =>
    unfold Supervision.step onSample
    dsimp only
    repeat' split
    all_goals exact ⟨h.outcome, h.timer, h.signalled⟩
  | close code durationMs =>
    refine ⟨?_, rfl, h.signalled⟩
    show (s.outcome <|> some _) = some outcome
    rw [h.outcome]
    rfl
  | error message =>
    refine ⟨?_, rfl, h.signalled⟩
    show (s.outcome <|> some _) = some outcome
    rw [h.outcome]
    rfl

/-- What happens after the end changes neither the outcome nor the signals. -/
theorem Over.run {outcome : SandboxOutcome} {signalled : List Nat} (h : Over outcome signalled s)
    (events : List ProcessEvent) :
    Over outcome signalled (Run.run (Supervision.step constraints command child) s events) :=
  Run.run_invariant (fun _ e hs => hs.step e) events h

theorem Alive.error (h : Alive constraints child scans events s) (message : String) :
    Over (.error (spawnError command message)) (if timedOut events then child.pid.toList else [])
      (Supervision.step constraints command child s (.error message)) := by
  refine ⟨?_, rfl, h.signalled⟩
  show (s.outcome <|> some _) = some _
  rw [h.outcome]
  rfl

/-- The process is closed, and its violations are no more than what its output has exceeded. -/
theorem Alive.close_ok (h : Alive constraints child scans events s) (hscans : scans = [])
    (hintime : timedOut events = false) (code : Option Int) (durationMs : Int) :
    Over (.ok
        { success := code = some 0
          exitCode := code
          stdout := (collectOutput constraints [] (dataOf events)).capture.text .stdout
          stderr := (collectOutput constraints [] (dataOf events)).capture.text .stderr
          durationMs
          peakMemoryMb := peakOf child events
          violations := (collectOutput constraints [] (dataOf events)).violations
          truncated := (collectOutput constraints [] (dataOf events)).capture.truncated })
      (if timedOut events then child.pid.toList else [])
      (Supervision.step constraints command child s (.close code durationMs)) := by
  have hkilled : s.killed = false := h.killed.trans hintime
  have houtput : s.output = collectOutput constraints [] (dataOf events) :=
    hscans ▸ h.intime hintime
  have hfails : s.fails = false := by
    rw [fails, hkilled, houtput, Bool.false_or, Bool.and_eq_false_iff]
    refine .inr (List.any_eq_false.mpr fun v hv => ?_)
    rw [type_collectOutput _ v hv]
    decide
  refine ⟨?_, rfl, h.signalled⟩
  show (s.outcome <|> some (if s.fails then _ else _)) = some _
  rw [h.outcome, hfails, if_neg Bool.false_ne_true, result, hkilled, houtput, h.peak]
  rfl

/-- The process is closed after a violation that is not about its output. -/
theorem Alive.close_failed (h : Alive constraints child scans events s)
    (htypes : ∀ v ∈ scans, v.type ≠ .outputSize)
    (hviolated : scans ≠ [] ∨ timedOut events = true) (code : Option Int) (durationMs : Int) :
    ∃ violations, Over (.error (executionError violations))
        (if timedOut events then child.pid.toList else [])
        (Supervision.step constraints command child s (.close code durationMs)) ∧
      violations.Perm (scans ++ (if timedOut events then [timeViolation constraints] else []) ++
        (collectOutput constraints [] (dataOf events)).violations) := by
  have hperm := h.output.violations
  obtain ⟨v, hv, htype⟩ : ∃ v ∈ s.output.violations, v.type ≠ .outputSize := by
    rcases hviolated with hscans | htime
    · obtain ⟨v, hv⟩ := List.exists_mem_of_ne_nil scans hscans
      refine ⟨v, hperm.mem_iff.mpr ?_, htypes v hv⟩
      exact List.mem_append_left _ (List.mem_append_left _ hv)
    · refine ⟨timeViolation constraints, hperm.mem_iff.mpr ?_, nofun⟩
      rw [htime, if_pos rfl]
      exact List.mem_append_left _ (List.mem_append_right _ (List.mem_singleton_self _))
  have hfails : s.fails = true := by
    rw [fails, Bool.and_eq_true, Bool.or_eq_true, List.any_eq_true]
    exact ⟨decide_eq_true (List.length_pos_of_mem hv), .inr ⟨v, hv, decide_eq_true htype⟩⟩
  refine ⟨s.output.violations, ⟨?_, rfl, h.signalled⟩, hperm⟩
  show (s.outcome <|> some (if s.fails then _ else _)) = some _
  rw [h.outcome, hfails, if_pos rfl]
  rfl

/-! ### Whole runs -/

theorem isEnd_lifetime (events : List ProcessEvent) : ∀ e ∈ lifetime events, e.isEnd = false := by
  intro e he
  simpa using List.mem_takeWhile_imp he

theorem eq_lifetime_of_ending (h : ending events = none) : lifetime events = events := by
  rw [lifetime, List.takeWhile_eq_self_iff]
  intro e he
  simpa using List.find?_eq_none.mp h e he

theorem exists_of_ending {last : ProcessEvent} (h : ending events = some last) :
    ∃ back, events = lifetime events ++ last :: back := by
  obtain ⟨hlast, front, back, rfl, hfront⟩ := List.find?_eq_some_iff_append.mp h
  refine ⟨back, ?_⟩
  have hstop : (last :: back).takeWhile (fun e => !e.isEnd) = [] :=
    List.takeWhile_cons_of_neg (by simpa using hlast)
  rw [lifetime, List.takeWhile_append_of_pos hfront, hstop, List.append_nil]

/-- Behind the event that ends the process nothing changes any more. -/
theorem over_of_ending {last : ProcessEvent} (hending : ending events = some last)
    {outcome : SandboxOutcome} {signalled : List Nat}
    (h : Over outcome signalled (Supervision.step constraints command child
      (Run.run (step constraints command child) (start scans) (lifetime events)) last)) :
    Over outcome signalled (Run.run (step constraints command child) (start scans) events) := by
  obtain ⟨back, hback⟩ := exists_of_ending hending
  rw [hback, Run.run, List.foldl_append, List.foldl_cons]
  exact h.run back

theorem supervised_of_types (htypes : ∀ v ∈ scans, v.type ≠ .outputSize)
    (events : List ProcessEvent) :
    Supervised constraints command child scans events
      (Run.run (step constraints command child) (start scans) events) := by
  have halive : Alive constraints child scans (lifetime events)
      (Run.run (step constraints command child) (start scans) (lifetime events)) :=
    (alive_start constraints child scans).run (isEnd_lifetime events)
  refine ⟨fun hnone => ?_, fun message hending => ?_, fun code durationMs hending hscans hintime => ?_,
    fun code durationMs hending hviolated => ?_, ?_⟩
  · rw [eq_lifetime_of_ending hnone] at halive
    exact halive.outcome
  · exact (over_of_ending hending (halive.error message)).outcome
  · exact (over_of_ending hending (halive.close_ok hscans hintime code durationMs)).outcome
  · obtain ⟨violations, hover, hperm⟩ := halive.close_failed htypes hviolated code durationMs
    exact ⟨violations, (over_of_ending hending hover).outcome, hperm⟩
  · cases hending : ending events with
    | none =>
      rw [eq_lifetime_of_ending hending] at halive ⊢
      exact halive.signalled
    | some last =>
      have hover : ∃ outcome, Over outcome (if timedOut (lifetime events) then child.pid.toList else [])
          (Supervision.step constraints command child
            (Run.run (step constraints command child) (start scans) (lifetime events)) last) := by
        cases last with
        | error message => exact ⟨_, halive.error message⟩
        | close code durationMs =>
          by_cases hviolated : scans ≠ [] ∨ timedOut (lifetime events) = true
          · obtain ⟨violations, hover, -⟩ := halive.close_failed htypes hviolated code durationMs
            exact ⟨_, hover⟩
          · rw [not_or, not_ne_iff, Bool.not_eq_true] at hviolated
            exact ⟨_, halive.close_ok hviolated.1 hviolated.2 code durationMs⟩
        | data | timeout | sample => exact absurd (List.find?_some hending) Bool.false_ne_true
      obtain ⟨outcome, hover⟩ := hover
      exact (over_of_ending hending hover).signalled

theorem type_scanEnvForSecrets (env : ProcessEnv) :
    ∀ v ∈ scanEnvForSecrets env, v.type ≠ .outputSize := by
  intro v hv
  obtain ⟨e, -, he⟩ := List.mem_filterMap.mp hv
  split at he
  · rw [← Option.some.inj he]
    exact nofun
  · cases he

/-- Whatever events a spawned process brings and in whatever order, the promise is settled by the
first one that ends the process: with an error if a variable that looks like a secret was passed,
the time ran out before or the process could not be run, else with what was collected up to there.
The group of the process is sent a signal once if the time ran out before the end, else never. -/
theorem run_supervised (config : SandboxRunConfig) (child : ChildProcess)
    (events : List ProcessEvent) :
    Supervised config.required config.command child (scanEnvForSecrets config.env) events
      (config.supervise child events) :=
  supervised_of_types (type_scanEnvForSecrets config.env) events

end KirkForge
