import KirkForge.Orchestrator.ExecuteDecomposition
import KirkForge.Theory.Run

/-!
# The delegate calls of a decomposition over time

`executeDecomposition` awaits each call of `delegate` in a race against a timer. A call that loses
its race is abandoned and goes on running while the loop makes the next one. The loop is a machine
here whose inputs are the ends of the calls and the timers; `completion_step` shows that it
computes what the loop over settled calls computes, and `oneSubtaskAtATime_iff` when no two of the
calls overlap.
-/

namespace KirkForge

/-- The race that the loop awaits; its call is known by its place among the calls. -/
structure Race where
  node : TaskNode
  attempt : Attempt
  call : Nat

/-- The loop over the nodes between two awaits, with the calls that have not settled. -/
structure TimedExecution where
  rest : List TaskNode
  execution : Execution
  race : Option Race
  running : List Nat
  /-- The error with which the loop has stopped. -/
  failure : Option String := none

inductive TimingInput
  /-- The call settles. -/
  | settle (call : Nat) (outcome : Settled String DelegationResult)
  /-- The timer of the call fires. -/
  | timeout (call : Nat)

/-- The arguments of `executeDecomposition`, and how long the subtasks take. -/
structure TimingEnv where
  taskId : String
  actor : Option Actor
  subtaskDurationMs : String → Nat

/-- The error of the timer that ends a race. -/
def Race.timeoutMessage (race : Race) : String :=
  match race.attempt with
  | .first => "Subtask " ++ race.node.id ++ " timed out after 300000ms"
  | .retry => "Subtask " ++ race.node.id ++ " retry timed out after 300000ms"

/-- `result.value`, or the message of `result.error`. -/
def Settled.toExcept {α : Type} : Settled String α → Except String α
  | ok value => .ok value
  | failed message | threw message => .error message

namespace TimedExecution

variable (env : TimingEnv)

/-- The arguments of a call; the retry does not pass the actor on. -/
def subtaskCall (node : TaskNode) (known : List SubtaskExecutionResult) : Attempt → SubtaskCall
  | .first => {
      nodeId := node.id
      known
      taskId := env.taskId ++ "--" ++ node.id
      description := node.description
      suppressMemory := false
      actor := env.actor }
  | .retry => {
      nodeId := node.id
      known
      taskId := env.taskId ++ "--" ++ node.id ++ "-r"
      description := node.description
      suppressMemory := false
      actor := none }

/-- A call of `delegate`, which the loop awaits. -/
def delegate (rest : List TaskNode) (x : Execution) (running : List Nat) (node : TaskNode)
    (attempt : Attempt) : TimedExecution where
  rest
  execution := { x with calls := x.calls ++ [subtaskCall env node x.results attempt] }
  race := some { node, attempt, call := x.calls.length }
  running := running ++ [x.calls.length]

/-- The loop up to the next call. -/
def nextNode : List TaskNode → Execution → List Nat → TimedExecution
  | [], x, running => { rest := [], execution := x, race := none, running }
  | node :: rest, x, running =>
    match checkDependencies node node.dependsOn x with
    | .error message =>
      { rest, execution := x, race := none, running, failure := some message }
    | .ok x =>
      if x.completed.has node.id then nextNode rest x running
      else delegate env rest x running node .first

/-- The entry for a node whose races have ended. -/
def entry (node : TaskNode) : Except String DelegationResult → SubtaskExecutionResult
  | .error message => {
      nodeId := node.id
      ok := false
      description := node.description
      language := node.language
      durationMs := env.subtaskDurationMs node.id
      tokensUsed := 0
      error := some message }
  | .ok value =>
    let verdict := resultVerdict value
    let files := extractWrittenFiles value
    { nodeId := node.id
      ok := verdict = "pass" || verdict = "warn"
      description := node.description
      language := node.language
      durationMs := env.subtaskDurationMs node.id
      tokensUsed := value.emission.totalTokens
      verdict := some verdict
      files := if files.length > 0 then some files else none }

def record (x : Execution) (sr : SubtaskExecutionResult) : Execution :=
  { x.push sr with totalTokens := x.totalTokens + sr.tokensUsed }

/-- The loop from the end of a race on. -/
def raceEnds (s : TimedExecution) (race : Race) (outcome : Except String DelegationResult) :
    TimedExecution :=
  match outcome, race.attempt with
  | .error _, .first => delegate env s.rest s.execution s.running race.node .retry
  | .error _, .retry | .ok _, _ =>
    nextNode env s.rest (record s.execution (entry env race.node outcome)) s.running

def start (ordered : List TaskNode) : TimedExecution := nextNode env ordered .empty []

/-- The loop goes on if it awaits the call that has settled. -/
def settled (s : TimedExecution) (call : Nat) (outcome : Settled String DelegationResult) :
    TimedExecution :=
  match s.race with
  | some race => if race.call = call then raceEnds env s race outcome.toExcept else s
  | none => s

def step (s : TimedExecution) : TimingInput → TimedExecution
  | .settle call outcome =>
    if call ∈ s.running then settled env { s with running := s.running.erase call } call outcome
    else s
  | .timeout call =>
    match s.race with
    | some race =>
      if race.call = call then raceEnds env s race (.error race.timeoutMessage) else s
    | none => s

/-! ### What the loop computes -/

section
variable (e : ExecutionEnv) (taskId : String) (actor : Option Actor)

/-- The timing of an execution whose calls settle as `e` says. -/
def timing : TimingEnv := ⟨taskId, actor, e.subtaskDurationMs⟩

/-- The variables of the loop after the races for the node that is under way. -/
def completeRace (race : Race) (x : Execution) : Execution :=
  let env := timing e taskId actor
  let finish (x : Execution) (attempt : Attempt) : Execution :=
    record x (entry env race.node (e.delegate race.node.id attempt).toExcept)
  match race.attempt, e.delegate race.node.id .first with
  | .first, .ok _ => finish x .first
  | .first, .failed _ | .first, .threw _ =>
    finish { x with calls := x.calls ++ [subtaskCall env race.node x.results .retry] } .retry
  | .retry, _ => finish x .retry

/-- What the loop over settled calls makes of the state. -/
def completion (s : TimedExecution) : Except String Execution :=
  match s.race, s.failure with
  | some race, _ =>
    s.rest.foldlM (executeNode e taskId actor) (completeRace e taskId actor race s.execution)
  | none, some message => .error message
  | none, none => .ok s.execution

/-- The end of the race that the input brings about is the one that `e` gives. -/
def Agrees (s : TimedExecution) : TimingInput → Prop
  | .settle call outcome => ∀ race, s.race = some race → race.call = call →
      (e.delegate race.node.id race.attempt).toExcept = outcome.toExcept
  | .timeout call => ∀ race, s.race = some race → race.call = call →
      (e.delegate race.node.id race.attempt).toExcept = .error race.timeoutMessage

variable {e taskId actor}

theorem entry_delegateTwice (node : TaskNode) :
    entry (timing e taskId actor) node (delegateTwice e node.id) = subtaskResult e node := by
  rw [subtaskResult]
  cases delegateTwice e node.id <;> rfl

theorem completeRace_first (node : TaskNode) (call : Nat) (x : Execution) :
    let sr := subtaskResult e node
    completeRace e taskId actor ⟨node, .first, call⟩
        { x with calls := x.calls ++ [subtaskCall (timing e taskId actor) node x.results .first] } =
      { x.push sr with
        totalTokens := x.totalTokens + sr.tokensUsed
        calls := x.calls ++ delegateCalls e taskId actor node x.results } := by
  intro sr
  have hsr : sr = entry (timing e taskId actor) node (delegateTwice e node.id) :=
    (entry_delegateTwice node).symm
  rw [hsr, completeRace, delegateTwice, delegateCalls]
  cases hfirst : e.delegate node.id .first with
  | ok value =>
    dsimp only
    rw [hfirst]
    rfl
  | failed message =>
    dsimp only
    rw [List.append_assoc]
    cases e.delegate node.id .retry <;> rfl
  | threw message =>
    dsimp only
    rw [List.append_assoc]
    cases e.delegate node.id .retry <;> rfl

theorem completion_nextNode (rest : List TaskNode) (x : Execution) (running : List Nat) :
    completion e taskId actor (nextNode (timing e taskId actor) rest x running) =
      rest.foldlM (executeNode e taskId actor) x := by
  induction rest generalizing x with
  | nil => rfl
  | cons node rest ih =>
    rw [nextNode, List.foldlM_cons, executeNode]
    cases checkDependencies node node.dependsOn x with
    | error message => rfl
    | ok x =>
      dsimp only
      split
      · exact ih x
      · exact congrArg (rest.foldlM (executeNode e taskId actor))
          (completeRace_first node x.calls.length x)

theorem completion_raceEnds {s : TimedExecution} {race : Race}
    {outcome : Except String DelegationResult} (hrace : s.race = some race)
    (hagrees : (e.delegate race.node.id race.attempt).toExcept = outcome) :
    completion e taskId actor (raceEnds (timing e taskId actor) s race outcome) =
      completion e taskId actor s := by
  have hs : completion e taskId actor s = s.rest.foldlM (executeNode e taskId actor)
      (completeRace e taskId actor race s.execution) := by
    rw [completion, hrace]
  obtain ⟨node, attempt, call⟩ := race
  rw [hs, raceEnds.eq_def, completeRace]
  subst hagrees
  cases attempt with
  | retry =>
    dsimp only
    cases hretry : (e.delegate node.id .retry).toExcept <;> exact completion_nextNode ..
  | first =>
    dsimp only
    cases hfirst : e.delegate node.id .first with
    | ok value => exact completion_nextNode ..
    | failed message => rfl
    | threw message => rfl

theorem completion_settled {s : TimedExecution} {call : Nat}
    {outcome : Settled String DelegationResult}
    (hagrees : Agrees e s (.settle call outcome)) :
    completion e taskId actor (settled (timing e taskId actor) s call outcome) =
      completion e taskId actor s := by
  rw [settled.eq_def]
  split
  · next race hrace =>
    split
    · next hcall => exact completion_raceEnds hrace (hagrees race hrace hcall)
    · rfl
  · rfl

theorem completion_step {s : TimedExecution} {input : TimingInput} (hagrees : Agrees e s input) :
    completion e taskId actor (step (timing e taskId actor) s input) =
      completion e taskId actor s := by
  cases input with
  | settle call outcome =>
    rw [step]
    split
    · exact completion_settled (s := { s with running := s.running.erase call }) hagrees
    · rfl
  | timeout call =>
    rw [step]
    split
    · next race hrace =>
      split
      · next hcall => exact completion_raceEnds hrace (hagrees race hrace hcall)
      · rfl
    · rfl

/-- A run that ends leaves what the loop over settled calls leaves. -/
theorem completion_run {ordered : List TaskNode} {inputs : List TimingInput}
    (h : Run.AllSteps (step (timing e taskId actor)) (Agrees e)
      (start (timing e taskId actor) ordered) inputs) :
    completion e taskId actor
        (Run.run (step (timing e taskId actor)) (start (timing e taskId actor) ordered) inputs) =
      ordered.foldlM (executeNode e taskId actor) .empty := by
  have hkept := Run.allStates_of_invariant
    (I := fun s => completion e taskId actor s = ordered.foldlM (executeNode e taskId actor) .empty)
    (fun s input hs hagrees => (completion_step hagrees).trans hs)
    (completion_nextNode ordered .empty []) h
  exact hkept.last

end

/-! ### Overlapping calls -/

/-- No two calls of `delegate` are running. -/
def OneAtATime (s : TimedExecution) : Prop := s.running.length ≤ 1

/-- The timer that fires is not that of the awaited call, or nothing is delegated after it. -/
def InTime (s : TimedExecution) : TimingInput → Prop
  | .settle .. => True
  | .timeout call => ∀ race, s.race = some race → race.call = call →
      race.attempt = .retry ∧
        (nextNode env s.rest
          (record s.execution (entry env race.node (.error race.timeoutMessage))) []).race = none

/-- Nothing has been delegated since these calls were running, or one call that is awaited. -/
inductive Continues (running : List Nat) (s : TimedExecution) : Prop
  | idle (hrace : s.race = none) (hrunning : s.running = running)
  | delegated (race : Race) (hrace : s.race = some race)
      (hrunning : s.running = running ++ [race.call])

variable {env} {s : TimedExecution} {race : Race} {running : List Nat}

theorem nextNode_continues (rest : List TaskNode) (x : Execution) (running : List Nat) :
    Continues running (nextNode env rest x running) := by
  induction rest generalizing x with
  | nil => exact .idle rfl rfl
  | cons node rest ih =>
    rw [nextNode]
    split
    · exact .idle rfl rfl
    · split
      · exact ih _
      · exact .delegated _ rfl rfl

/-- Whether the loop goes on to a call does not depend on the calls that are running. -/
theorem nextNode_race_eq_none (rest : List TaskNode) (x : Execution) (running running' : List Nat) :
    (nextNode env rest x running).race = none ↔ (nextNode env rest x running').race = none := by
  induction rest generalizing x with
  | nil => rfl
  | cons node rest ih =>
    rw [nextNode, nextNode]
    split
    · rfl
    · split
      · exact ih _
      · exact iff_of_false nofun nofun

theorem raceEnds_continues (s : TimedExecution) (race : Race)
    (outcome : Except String DelegationResult) :
    Continues s.running (raceEnds env s race outcome) := by
  rw [raceEnds.eq_def]
  split
  · exact .delegated _ rfl rfl
  · exact nextNode_continues ..
  · exact nextNode_continues ..

/-- The awaited call is the only one that is running. -/
structure Orderly (s : TimedExecution) : Prop where
  oneAtATime : s.OneAtATime
  awaited : ∀ race, s.race = some race → s.running = [race.call]

theorem Continues.orderly (h : Continues [] s) : s.Orderly := by
  cases h with
  | idle hrace hrunning =>
    refine ⟨?_, fun race h => ?_⟩
    · rw [OneAtATime, hrunning]
      exact Nat.zero_le 1
    · rw [hrace] at h
      cases h
  | delegated race hrace hrunning =>
    refine ⟨?_, fun race' h => ?_⟩
    · rw [OneAtATime, hrunning]
      exact Nat.le_refl 1
    · rw [hrace] at h
      cases h
      exact hrunning

theorem start_orderly (ordered : List TaskNode) : (start env ordered).Orderly :=
  (nextNode_continues ordered .empty []).orderly

/-- A timer that fires in time leaves its call running and makes no other. -/
theorem Orderly.timeout (h : s.Orderly)
    (hidle : (raceEnds env s race (.error race.timeoutMessage)).race = none) :
    (raceEnds env s race (.error race.timeoutMessage)).Orderly := by
  have hcontinues : Continues s.running (raceEnds env s race (.error race.timeoutMessage)) :=
    raceEnds_continues ..
  cases hcontinues with
  | delegated race' hrace' _ =>
    rw [hidle] at hrace'
    cases hrace'
  | idle _ hrunning =>
    refine ⟨?_, fun race' hrace' => ?_⟩
    · rw [OneAtATime, hrunning]
      exact h.oneAtATime
    · rw [hidle] at hrace'
      cases hrace'

theorem raceEnds_timeout_race_eq_none :
    (raceEnds env s race (.error race.timeoutMessage)).race = none ↔
      race.attempt = .retry ∧
        (nextNode env s.rest
          (record s.execution (entry env race.node (.error race.timeoutMessage))) []).race =
            none := by
  rw [raceEnds.eq_def]
  cases race.attempt with
  | first => exact iff_of_false nofun (fun h => nomatch h.1)
  | retry => exact (nextNode_race_eq_none ..).trans (and_iff_right rfl).symm

theorem Orderly.settled (h : s.Orderly) {call : Nat} (hrunning : call ∈ s.running)
    (outcome : Settled String DelegationResult) :
    (settled env { s with running := s.running.erase call } call outcome).Orderly := by
  obtain ⟨rest, x, race, running, failure⟩ := s
  cases race with
  | none =>
    refine ⟨?_, nofun⟩
    have hlength : (running.erase call).length ≤ running.length := List.length_erase_le
    exact Nat.le_trans hlength h.oneAtATime
  | some race =>
    obtain rfl : running = [race.call] := h.awaited race rfl
    obtain rfl : call = race.call := List.mem_singleton.mp hrunning
    rw [TimedExecution.settled]
    dsimp only
    rw [if_pos rfl, List.erase_cons_head]
    exact (raceEnds_continues ⟨rest, x, some race, [], failure⟩ race outcome.toExcept).orderly

theorem Orderly.step (h : s.Orderly) (input : TimingInput) (hok : InTime env s input) :
    (step env s input).Orderly := by
  cases input with
  | settle call outcome =>
    rw [TimedExecution.step]
    split
    · next hrunning => exact h.settled hrunning outcome
    · exact h
  | timeout call =>
    rw [TimedExecution.step]
    cases hrace : s.race with
    | none => exact h
    | some race =>
      dsimp only
      by_cases hcall : race.call = call
      · rw [if_pos hcall]
        exact h.timeout (raceEnds_timeout_race_eq_none.mpr (hok race hrace hcall))
      · rw [if_neg hcall]
        exact h

/-- A timer that fires out of time starts a call beside the one it abandons. -/
theorem Orderly.inTime (h : s.Orderly) (input : TimingInput)
    (hone : (TimedExecution.step env s input).OneAtATime) : InTime env s input := by
  cases input with
  | settle call outcome => trivial
  | timeout call =>
    intro race hrace hcall
    rw [TimedExecution.step, hrace] at hone
    dsimp only at hone
    rw [if_pos hcall] at hone
    rw [← raceEnds_timeout_race_eq_none]
    have hcontinues : Continues s.running (raceEnds env s race (.error race.timeoutMessage)) :=
      raceEnds_continues ..
    cases hcontinues with
    | idle hidle => exact hidle
    | delegated race' hrace' hrunning =>
      rw [OneAtATime, hrunning, h.awaited race hrace] at hone
      exact absurd hone (Nat.not_succ_le_self 1)

variable (env) in
theorem oneSubtaskAtATime_iff (ordered : List TaskNode) (inputs : List TimingInput) :
    Run.AllStates (step env) OneAtATime (start env ordered) inputs ↔
      Run.AllSteps (step env) (InTime env) (start env ordered) inputs := by
  constructor
  · intro h
    exact Run.allSteps_of_allStates (fun _ input hs hok => Orderly.step hs input hok)
      (fun _ input hs hone => Orderly.inTime hs input hone) (start_orderly ordered) h
  · intro h
    have hinv : Run.AllStates (step env) Orderly (start env ordered) inputs :=
      Run.allStates_of_invariant (fun _ input hs hok => Orderly.step hs input hok)
        (start_orderly ordered) h
    exact hinv.mono fun _ hs => hs.oneAtATime

/-- A decomposition into one task, without an actor. -/
def singleTask : TimedExecution :=
  start ⟨"task", none, fun _ => 0⟩ [⟨"a", "write a file", "python", [], .simple, [], ""⟩]

/-- The first call of the task times out, and the retry starts while it is running. -/
theorem timedOut_subtask_overlaps :
    ¬Run.AllStates (step ⟨"task", none, fun _ => 0⟩) OneAtATime singleTask [.timeout 0] :=
  fun h => Nat.not_succ_le_self 1 h.2

end TimedExecution

end KirkForge
