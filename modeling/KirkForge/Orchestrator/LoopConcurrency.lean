import KirkForge.Orchestrator.LoopDirectories

/-!
# Correction loops that share an orchestrator

A pool is the state of one orchestrator with all the calls of `runCorrectionLoop` made on it; a
step starts a call or resumes one at its `await`. The calls exclude one another as long as none is
started while another one is in the `await` of its `catch` block, where `busy` has already been
cleared (`mutual_exclusion_iff`).
-/

namespace KirkForge

/-- Past the `busy` check and before the end of the `finally` block. -/
def Pc.inside : Pc → Bool
  | .rejected | .finished _ => false
  | _ => true

/-- In the `await` of the `catch` block. -/
def Pc.crashing : Pc → Bool
  | .crashFlushing _ => true
  | _ => false

/-- What `busy` says while a call is inside. -/
inductive Entered (c : Suspended) : Prop
  | running (busy : c.1.busy = true) (inside : c.2.pc.inside = true)
      (calm : c.2.pc.crashing = false)
  | crashing (busy : c.1.busy = false) (crashing : c.2.pc.crashing = true)

/-- How far a call that passed the `busy` check is. -/
inductive Phase (c : Suspended) : Prop
  | entered (entered : Entered c)
  | finished (busy : c.1.busy = false) (inside : c.2.pc.inside = false)
      (turnDir : c.2.turnDir = none) (validatorDirs : c.2.validatorDirs = [])

variable {env : LoopEnv} {tick : Tick} {s : OrchestratorState} {l : CallState}

theorem crash_entered (message : String) : Entered (crash env tick message s l) := .crashing rfl rfl

theorem leave_phase (outcome : CorrectionLoopOutcome) : Phase (leave outcome s l) :=
  .finished (cleanupTurnWorkspace_busy _) rfl rfl rfl

theorem afterLoop_entered (h : s.busy = true) : Entered (afterLoop env tick s l) := by
  rw [afterLoop]
  split
  · exact crash_entered _
  · exact .running ((cleanupTurnWorkspace_busy s).trans h) rfl rfl

theorem startTurn_entered (h : s.busy = true) : Entered (startTurn env tick s l) := by
  rw [startTurn]
  split <;> exact .running h rfl rfl

theorem loopHead_entered (h : s.busy = true) : Entered (loopHead env tick s l) := by
  rw [loopHead]
  split
  · exact startTurn_entered h
  · exact afterLoop_entered h

theorem beginLoop_entered (h : s.busy = true) : Entered (beginLoop env tick s l) := by
  simp only [beginLoop, ensureBaselineSnapshot]
  split
  · exact crash_entered _
  · next heq =>
    refine loopHead_entered ?_
    split at heq <;> cases heq <;> exact h

theorem afterValidation_entered (h : s.busy = true) {packet : ReducedStatePacket} {wt : Nat}
    {ran : Option TaskValidationResult} :
    Entered (afterValidation env tick packet wt ran s l) := by
  have h' : (cleanupTurnWorkspace s).busy = true := (cleanupTurnWorkspace_busy s).trans h
  rw [afterValidation]
  split
  · exact afterLoop_entered h'
  · rw [judge]
    split
    · exact loopHead_entered h'
    · exact afterLoop_entered h'

theorem isolate_entered (h : s.busy = true) {packet : ReducedStatePacket} {wt : Nat} :
    Entered (isolate env tick packet wt s l) := by
  rw [isolate, createIsolatedWorkspace]
  split <;> exact .running h rfl rfl

theorem afterTurn_entered (h : s.busy = true) {value : DelegationResult} :
    Entered (afterTurn env tick value s l) := by
  rw [afterTurn]
  split
  · exact isolate_entered h
  · split
    · exact isolate_entered h
    · exact .running h rfl rfl
  · exact afterValidation_entered h

theorem startValidator_entered (h : s.busy = true) {packet : ReducedStatePacket} {wt : Nat}
    {isolated : DirId} : Entered (startValidator env tick packet wt isolated s l) := by
  rw [startValidator]
  split
  · dsimp only
    split <;> exact .running h rfl rfl
  · exact .running h rfl rfl

variable (env tick) in
theorem startCall_entered (h : s.busy = false) (taskIdNow : String) (task : TaskInput)
    (config : CorrectionLoopConfig) : Entered (startCall env tick taskIdNow task config s) := by
  simp only [startCall, h, Bool.false_eq_true, if_false]
  split
  · exact .running rfl rfl rfl
  · exact beginLoop_entered rfl

variable (env tick) in
theorem startCall_rejected (h : s.busy = true) (taskIdNow : String) (task : TaskInput)
    (config : CorrectionLoopConfig) :
    ∃ l, startCall env tick taskIdNow task config s = (s, l) ∧ l.pc = .rejected ∧
      l.turnDir = none ∧ l.validatorDirs = [] := by
  simp only [startCall, h, if_true]
  exact ⟨_, rfl, rfl, rfl, rfl⟩

/-- A call that has returned stays as it is. -/
theorem resume_of_outside (h : l.pc.inside = false) (answer : Answer) :
    resume env tick answer s l = (s, l) := by
  unfold resume
  split <;> first | rfl | (next hl => rw [hl] at h; cases h)

theorem Entered.inside {c : Suspended} (h : Entered c) : c.2.pc.inside = true := by
  cases h with
  | running _ inside => exact inside
  | crashing _ crashing =>
    generalize c.2.pc = pc at crashing
    cases pc <;> first | rfl | cases crashing

variable (env tick) in
theorem resume_phase (answer : Answer) (h : Phase (s, l)) :
    Phase (resume env tick answer s l) := by
  cases h with
  | finished busy inside turnDir validatorDirs =>
    rw [resume_of_outside inside]
    exact .finished busy inside turnDir validatorDirs
  | entered h =>
    cases h with
    | crashing busy crashing =>
      unfold resume
      split <;> first
        | exact leave_phase _
        | exact .entered (.crashing busy crashing)
        | (next hl => rw [hl] at crashing; cases crashing)
    | running busy inside calm =>
      unfold resume
      split
      · exact .entered (beginLoop_entered busy)
      · exact .entered (crash_entered _)
      · exact .entered (.running busy rfl rfl)
      · exact .entered (afterTurn_entered busy)
      · exact .entered (afterLoop_entered ((cleanupTurnWorkspace_busy s).trans busy))
      · exact .entered (crash_entered _)
      · exact .entered (startValidator_entered busy)
      · exact .entered (crash_entered _)
      · exact .entered (.running busy rfl rfl)
      · exact .entered (afterValidation_entered busy)
      · exact .entered (.running busy rfl rfl)
      · exact .entered (.running busy rfl rfl)
      · exact .entered (crash_entered _)
      · exact leave_phase _
      · exact .entered (crash_entered _)
      · exact leave_phase _
      · exact leave_phase _
      · exact .entered (.running busy inside calm)

theorem Phase.of_inside {c : Suspended} (h : Phase c) (hin : c.2.pc.inside = true) :
    Entered c := by
  cases h with
  | entered h => exact h
  | finished _ out => rw [out] at hin; cases hin

theorem Phase.of_outside {c : Suspended} (h : Phase c) (hout : c.2.pc.inside = false) :
    c.1.busy = false ∧ c.2.turnDir = none ∧ c.2.validatorDirs = [] := by
  cases h with
  | entered h => rw [h.inside] at hout; cases hout
  | finished busy _ ht hv => exact ⟨busy, ht, hv⟩

/-! ### Pools -/

structure Pool where
  shared : OrchestratorState
  calls : List CallState

inductive PoolInput
  | start (tick : Tick) (taskIdNow : String) (task : TaskInput) (config : CorrectionLoopConfig)
  | resume (index : Nat) (tick : Tick) (answer : Answer)

def Pool.step (env : LoopEnv) (p : Pool) : PoolInput → Pool
  | .start tick taskIdNow task config =>
    let c := startCall env tick taskIdNow task config p.shared
    ⟨c.1, p.calls ++ [c.2]⟩
  | .resume index tick answer =>
    match p.calls[index]? with
    | none => p
    | some l =>
      let c := KirkForge.resume env tick answer p.shared l
      ⟨c.1, p.calls.set index c.2⟩

/-- At most one call is inside. -/
def ExclusiveCalls (calls : List CallState) : Prop :=
  ∀ (i j : Nat) (li lj : CallState), calls[i]? = some li → calls[j]? = some lj →
    li.pc.inside = true → lj.pc.inside = true → i = j

/-- At most one call is inside, `busy` is set while one is, up to its own crash, and the turn and
validator workspaces that a call has made and not removed itself are there. -/
structure MutuallyExclusive (p : Pool) : Prop where
  exclusive : ExclusiveCalls p.calls
  busy : ∀ l ∈ p.calls, l.pc.inside = true → l.pc.crashing = false → p.shared.busy = true
  workspaces : ∀ l ∈ p.calls, ∀ dir, l.turnDir = some dir ∨ dir ∈ l.validatorDirs →
    p.shared.disk.tmp.has dir = true

/-- No call is started while another one is in the `await` of its `catch` block. -/
def CalmStart (p : Pool) : PoolInput → Prop
  | .start .. => ∀ l ∈ p.calls, l.pc.crashing = false
  | .resume .. => True

structure PoolInvariant (p : Pool) : Prop where
  exclusive : ExclusiveCalls p.calls
  entered : ∀ l ∈ p.calls, l.pc.inside = true → Entered (p.shared, l)
  idle : (∀ l ∈ p.calls, l.pc.inside = false) → p.shared.busy = false
  outside : ∀ l ∈ p.calls, l.pc.inside = false → l.turnDir = none ∧ l.validatorDirs = []
  below : StateBelow p.shared
  owns : ∀ l ∈ p.calls, CallOwns p.shared l

theorem PoolInvariant.mutuallyExclusive {p : Pool} (h : PoolInvariant p) : MutuallyExclusive p where
  exclusive := h.exclusive
  busy l hl hin hcalm := by
    cases h.entered l hl hin with
    | running busy => exact busy
    | crashing _ hc => exact absurd hc (Bool.eq_false_iff.mp hcalm)
  workspaces l hl dir hdir :=
    hdir.elim (fun ht => ((h.owns l hl).turn dir ht).1)
      fun hv => ((h.owns l hl).validators dir hv).1

/-- A call that is outside has no directory left. -/
structure Returned (l : CallState) : Prop where
  outside : l.pc.inside = false
  turnDir : l.turnDir = none
  validatorDirs : l.validatorDirs = []

theorem PoolInvariant.returned {p : Pool} (h : PoolInvariant p) (hl : l ∈ p.calls)
    (hout : l.pc.inside = false) : Returned l :=
  ⟨hout, (h.outside l hl hout).1, (h.outside l hl hout).2⟩

theorem Returned.callOwns (h : Returned l) (s : OrchestratorState) : CallOwns s l where
  turn := by rw [h.turnDir]; nofun
  validators := by rw [h.validatorDirs]; nofun
  delegating dir cwd hpc := by
    have hout := h.outside
    rw [hpc] at hout
    cases hout

/-- Where every other call has returned, the invariant is a matter of the one call. -/
theorem PoolInvariant.of_one {c : Suspended} {calls : List CallState} {index : Nat}
    (hindex : calls[index]? = some c.2) (hphase : Phase c) (hdirs : Directories c)
    (hothers : ∀ i l, calls[i]? = some l → i ≠ index → Returned l) :
    PoolInvariant ⟨c.1, calls⟩ := by
  have hat {i : Nat} {l : CallState} (hi : calls[i]? = some l) (hin : l.pc.inside = true) :
      i = index := by
    by_contra hne
    exact absurd hin (Bool.eq_false_iff.mp (hothers i l hi hne).outside)
  have hmem {l : CallState} (hl : l ∈ calls) : l = c.2 ∨ Returned l := by
    obtain ⟨i, hi⟩ := List.getElem?_of_mem hl
    by_cases hne : i = index
    · rw [hne, hindex] at hi
      exact .inl (Option.some.inj hi).symm
    · exact .inr (hothers i l hi hne)
  refine ⟨fun i j li lj hi hj hini hinj => (hat hi hini).trans (hat hj hinj).symm,
    fun l hl hin => ?_, fun hall => ?_, fun l hl hout => ?_, hdirs.below, fun l hl => ?_⟩
  · rcases hmem hl with rfl | hr
    · exact hphase.of_inside hin
    · exact absurd hin (Bool.eq_false_iff.mp hr.outside)
  · exact (hphase.of_outside (hall c.2 (List.mem_of_getElem? hindex))).1
  · rcases hmem hl with rfl | hr
    · exact (hphase.of_outside hout).2
    · exact ⟨hr.turnDir, hr.validatorDirs⟩
  · rcases hmem hl with rfl | hr
    · exact hdirs.owns
    · exact hr.callOwns _

/-- A call that was not let in changes nothing for the others. -/
theorem PoolInvariant.append {p : Pool} (h : PoolInvariant p) (hr : Returned l) :
    PoolInvariant ⟨p.shared, p.calls ++ [l]⟩ := by
  have hold {i : Nat} {li : CallState} (hi : (p.calls ++ [l])[i]? = some li)
      (hin : li.pc.inside = true) : p.calls[i]? = some li := by
    rw [List.getElem?_append] at hi
    split at hi
    · exact hi
    · rw [List.mem_singleton.mp (List.mem_of_getElem? hi)] at hin
      exact absurd hin (Bool.eq_false_iff.mp hr.outside)
  have hmem {li : CallState} (hl : li ∈ p.calls ++ [l]) : li ∈ p.calls ∨ li = l :=
    (List.mem_append.mp hl).imp_right List.mem_singleton.mp
  refine ⟨fun i j li lj hi hj hini hinj =>
    h.exclusive i j li lj (hold hi hini) (hold hj hinj) hini hinj,
    fun li hl hin => ?_, fun hall => ?_, fun li hl hout => ?_, h.below, fun li hl => ?_⟩
  · rcases hmem hl with hl | rfl
    · exact h.entered li hl hin
    · exact absurd hin (Bool.eq_false_iff.mp hr.outside)
  · exact h.idle fun li hl => hall li (List.mem_append_left _ hl)
  · rcases hmem hl with hl | rfl
    · exact h.outside li hl hout
    · exact ⟨hr.turnDir, hr.validatorDirs⟩
  · rcases hmem hl with hl | rfl
    · exact h.owns li hl
    · exact hr.callOwns _

theorem PoolInvariant.start {p : Pool} (h : PoolInvariant p) {tick : Tick} {taskIdNow : String}
    {task : TaskInput} {config : CorrectionLoopConfig}
    (hcalm : ∀ l ∈ p.calls, l.pc.crashing = false) :
    PoolInvariant (p.step env (.start tick taskIdNow task config)) := by
  rw [Pool.step]
  by_cases hidle : ∀ l ∈ p.calls, l.pc.inside = false
  · have hentered := startCall_entered env tick (h.idle hidle) taskIdNow task config
    have hdirs := startCall_directories env tick h.below taskIdNow task config
    refine .of_one (List.getElem?_concat_length ..) (.entered hentered) hdirs fun i l hi hne => ?_
    have hlt : i < p.calls.length := by
      have := (List.getElem?_eq_some_iff.mp hi).1
      rw [List.length_append, List.length_singleton] at this
      omega
    rw [List.getElem?_append_left hlt] at hi
    exact h.returned (List.mem_of_getElem? hi) (hidle l (List.mem_of_getElem? hi))
  · obtain ⟨l₀, hl₀, hin₀⟩ : ∃ l ∈ p.calls, l.pc.inside = true := by simpa using hidle
    have hbusy := h.mutuallyExclusive.busy l₀ hl₀ hin₀ (hcalm l₀ hl₀)
    obtain ⟨l, hc, hpc, ht, hv⟩ := startCall_rejected env tick hbusy taskIdNow task config
    have hout : l.pc.inside = false := by rw [hpc]; rfl
    rw [hc]
    exact h.append ⟨hout, ht, hv⟩

theorem PoolInvariant.resume {p : Pool} (h : PoolInvariant p) {index : Nat} {tick : Tick}
    {answer : Answer} : PoolInvariant (p.step env (.resume index tick answer)) := by
  rw [Pool.step]
  cases hl : p.calls[index]? with
  | none => exact h
  | some l =>
    have hmem : l ∈ p.calls := List.mem_of_getElem? hl
    obtain ⟨hlt, hget⟩ := List.getElem?_eq_some_iff.mp hl
    dsimp only
    cases hin : l.pc.inside with
    | false =>
      rw [resume_of_outside hin, ← hget, List.set_getElem_self]
      exact h
    | true =>
      have hphase := resume_phase env tick answer (.entered (h.entered l hmem hin))
      have hdirs := resume_directories env tick answer ⟨h.below, h.owns l hmem⟩
      refine .of_one (List.getElem?_set_self hlt) hphase hdirs fun i li hi hne => ?_
      rw [List.getElem?_set_ne (Ne.symm hne)] at hi
      refine h.returned (List.mem_of_getElem? hi) (Bool.eq_false_iff.mpr fun hini => hne ?_)
      exact h.exclusive i index li l hi hl hini hin

theorem PoolInvariant.step {p : Pool} (h : PoolInvariant p) {input : PoolInput}
    (hcalm : CalmStart p input) : PoolInvariant (p.step env input) := by
  cases input with
  | start => exact h.start hcalm
  | resume => exact h.resume

/-- A call started during the crash of another one is let in beside it. -/
theorem PoolInvariant.calmStart {p : Pool} (h : PoolInvariant p) {input : PoolInput}
    (hex : ExclusiveCalls (p.step env input).calls) : CalmStart p input := by
  cases input with
  | resume => trivial
  | start tick taskIdNow task config =>
    intro l hl
    by_contra hcrash
    have hcrash : l.pc.crashing = true := eq_true_of_ne_false hcrash
    obtain ⟨i, hi⟩ := List.getElem?_of_mem hl
    have hlt : i < p.calls.length := (List.getElem?_eq_some_iff.mp hi).1
    have hin : l.pc.inside = true := by
      generalize l.pc = pc at hcrash
      cases pc <;> first | rfl | cases hcrash
    have hbusy : p.shared.busy = false := by
      cases h.entered l hl hin with
      | running _ _ calm => exact absurd hcrash (Bool.eq_false_iff.mp calm)
      | crashing busy => exact busy
    have hentered := startCall_entered env tick hbusy taskIdNow task config
    have := hex i p.calls.length l _ ((List.getElem?_append_left hlt).trans hi)
      (List.getElem?_concat_length ..) hin hentered.inside
    omega

theorem poolInvariant_fresh (user : Tree) (classifierMemory : Option (List LearnedExample)) :
    PoolInvariant ⟨.fresh user classifierMemory, []⟩ where
  exclusive _ _ _ _ hi := absurd (List.mem_of_getElem? hi) List.not_mem_nil
  entered _ hl := absurd hl List.not_mem_nil
  idle _ := rfl
  outside _ hl := absurd hl List.not_mem_nil
  below := ⟨nofun, fun _ hdir => absurd hdir List.not_mem_nil, nofun⟩
  owns _ hl := absurd hl List.not_mem_nil

theorem mutual_exclusion_iff (env : LoopEnv) (user : Tree)
    (classifierMemory : Option (List LearnedExample)) (inputs : List PoolInput) :
    Run.AllStates (Pool.step env) MutuallyExclusive ⟨.fresh user classifierMemory, []⟩ inputs ↔
      Run.AllSteps (Pool.step env) CalmStart ⟨.fresh user classifierMemory, []⟩ inputs := by
  have hinit := poolInvariant_fresh user classifierMemory
  constructor
  · exact Run.allSteps_of_allStates (fun _ _ h hok => h.step hok)
      (fun _ _ h hnext => h.calmStart hnext.exclusive) hinit
  · intro hcalm
    exact (Run.allStates_of_invariant (fun _ _ h hok => h.step hok) hinit hcalm).mono
      fun _ h => h.mutuallyExclusive

/-- The first call crashes; the second enters during the crash and finishes a delegation; the
first then leaves. -/
def crashRace : List PoolInput :=
  let tick : Tick := { now := "" }
  [.start tick "task-0" { description := "first" } { maxCorrections := 1 },
    .resume 0 tick (.delegated (.threw "connection reset") .nil),
    .resume 0 tick .settled,
    .start tick "task-1" { description := "second" } { maxCorrections := 1 },
    .resume 1 tick (.delegated (.failed "no provider") .nil),
    .resume 0 tick .settled]

def raceEnv : LoopEnv where
  classifyTask _ _ := .hardPrompt
  policyHash := none
  allowUnsafeValidatorShell := false
  cwdPath := "/work"

/-- The call that leaves clears `busy` and removes the turn workspace of the call that goes on. -/
theorem crashRace_not_exclusive :
    let p := Run.run (Pool.step raceEnv) ⟨.fresh .nil none, []⟩ crashRace
    (p.shared.busy = false ∧
      p.calls.map (fun l => (l.pc.inside, l.turnDir.map p.shared.disk.tmp.has)) =
        [(false, none), (true, some false)]) ∧
      ¬Run.AllStates (Pool.step raceEnv) MutuallyExclusive ⟨.fresh .nil none, []⟩ crashRace := by
  intro p
  have hp : p.shared.busy = false ∧
      p.calls.map (fun l => (l.pc.inside, l.turnDir.map p.shared.disk.tmp.has)) =
        [(false, none), (true, some false)] := by decide
  refine ⟨hp, fun h => ?_⟩
  have hmem : (true, some false) ∈
      p.calls.map fun l => (l.pc.inside, l.turnDir.map p.shared.disk.tmp.has) := by
    rw [hp.2]; decide
  obtain ⟨l, hl, hlpc⟩ := List.mem_map.mp hmem
  obtain ⟨-, hdir⟩ := Prod.mk.inj hlpc
  obtain ⟨dir, hturn, hgone⟩ := Option.map_eq_some_iff.mp hdir
  have hthere : p.shared.disk.tmp.has dir = true := h.last.workspaces l hl dir (.inl hturn)
  rw [hgone] at hthere
  cases hthere

end KirkForge
