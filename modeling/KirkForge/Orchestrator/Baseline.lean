import KirkForge.Orchestrator.LoopDirectories

/-!
# Baselines of successive correction loops

The loops that one orchestrator runs one after the other, with changes to the user's files in
between. The first loop that takes a snapshot leaves it in `baselineSnapshotDir`, where every later
loop finds it: the turns of a loop start from the files as they were when the loop began only if
there is no snapshot yet (`freshBaseline_iff`).
-/

namespace KirkForge

variable {env : LoopEnv} {tick : Tick} {s : OrchestratorState} {l : CallState}

/-! ### Sequences of loops -/

/-- What can happen to an orchestrator between two loops, and a loop. -/
inductive LoopOp
  | edit (user : Tree)
  | loop (tick : Tick) (taskIdNow : String) (task : TaskInput) (config : CorrectionLoopConfig)
      (answers : List (Tick × Answer))

def LoopOp.step (env : LoopEnv) (s : OrchestratorState) : LoopOp → OrchestratorState
  | .edit user => { s with disk := { s.disk with user } }
  | .loop tick taskIdNow task config answers =>
    (runCall env tick taskIdNow task config answers s).1

/-- The turns of the loop, as they were started. -/
def LoopOp.starts (env : LoopEnv) (s : OrchestratorState) : LoopOp → List TurnStart
  | .edit _ => []
  | .loop tick taskIdNow task config answers =>
    (runCall env tick taskIdNow task config answers s).2.starts

/-- The turn starts from a snapshot that its own loop has made of the files in `cwd`, and has all
of them; `s` is the state in which the loop begins. -/
structure FreshStart (env : LoopEnv) (s : OrchestratorState) (t : TurnStart) : Prop where
  own : s.disk.next ≤ t.baseline
  copied : t.files = turnWorkspace (env.path (.tmp t.baseline))
    (baselineSnapshot (env.path s.cwd) (s.disk.tree s.cwd))
  complete : CompleteCopy (s.disk.tree s.cwd) t.files

def FreshBaseline (env : LoopEnv) (s : OrchestratorState) (op : LoopOp) : Prop :=
  ∀ t ∈ op.starts env s, FreshStart env s t

/-- The tick at which the classifier's memory is there, if it can be loaded. -/
def loadedAt : List (Tick × Answer) → Option Tick
  | [] => none
  | (tick, .settled) :: _ => some tick
  | (_, .rejected _) :: _ => none
  | _ :: answers => loadedAt answers

/-- The tick of the segment that begins the turn loop. -/
def LoopOp.begins (s : OrchestratorState) : LoopOp → Option Tick
  | .edit _ => none
  | .loop tick _ _ _ answers =>
    if s.busy then none
    else if s.classifierMemory.isSome ∧ s.classifierLoaded = false then loadedAt answers
    else some tick

/-- The loop is let in and gets as far as delegating its first turn. -/
structure StartsTurn (snapshot : Option DirId) (config : CorrectionLoopConfig) (tick : Tick) :
    Prop where
  fault : snapshot = none → tick.faults.snapshot = none
  maxCorrections : 0 ≤ config.maxCorrections
  turnDir : tick.faults.turnDir = none
  turnCopy : tick.faults.turnCopy = none

/-- A loop that starts a turn finds no snapshot of an earlier loop, and in `cwd` no file that a copy
has to contain. -/
def NothingToCopy (s : OrchestratorState) : LoopOp → Prop
  | .edit _ => True
  | .loop tick taskIdNow task config answers =>
    ∀ began ∈ (LoopOp.loop tick taskIdNow task config answers).begins s,
      StartsTurn s.baselineSnapshotDir config began →
        s.baselineSnapshotDir = none ∧
          ∀ p, p.any isExcluded = false → (s.disk.tree s.cwd).read? p = none

/-! ### The baseline of the turns of a loop -/

/-- The turns so far and those to come start from the directory `b`. -/
structure TurnsFrom (b : DirId) (c : Suspended) : Prop where
  baselineCwd : c.2.baselineCwd = b
  starts : ∀ t ∈ c.2.starts, t.baseline = b

theorem Move.turnsFrom {b : DirId} {c c' : Suspended} (hmove : Move env c c')
    (h : TurnsFrom b c) : TurnsFrom b c' := by
  cases hmove with
  | quiet hs => exact ⟨hs.baselineCwd.trans h.1, by rw [hs.starts]; exact h.2⟩
  | turnStarted =>
    refine ⟨h.1, fun t ht => ?_⟩
    rcases List.mem_append.mp ht with ht | ht
    · exact h.2 t ht
    · rw [List.mem_singleton.mp ht]; exact h.1
  | _ => exact ⟨h.1, h.2⟩

/-- The directory `b` keeps its content, and the turns start with copies of it. -/
structure SnapshotKept (env : LoopEnv) (b : DirId) (content : Tree) (c : Suspended) : Prop
    extends TurnsFrom b c where
  kept : c.1.disk.tmp.get? b = some content
  below : b < c.1.disk.next
  active : c.1.activeTurnWorkspace ≠ some b
  isolated : b ∉ c.1.isolatedWorkspaceDirs
  delegating : ∀ dir cwd, c.2.pc = .delegating dir cwd → dir ≠ b
  files : ∀ t ∈ c.2.starts, t.files = turnWorkspace (env.path (.tmp b)) content

theorem get?_mkdtemp_of_lt {d : Disk} {content : Tree} {x : DirId} (h : x < d.next) :
    (d.mkdtemp content).tmp.get? x = d.tmp.get? x := by
  rw [Disk.get?_mkdtemp, if_neg h.ne']

theorem Move.snapshotKept {b : DirId} {content : Tree} {c c' : Suspended} (hmove : Move env c c')
    (h : SnapshotKept env b content c) : SnapshotKept env b content c' := by
  have hfrom := hmove.turnsFrom h.toTurnsFrom
  obtain ⟨⟨hcwd, -⟩, hkept, hbelow, hactive, hisolated, hdelegating, hfiles⟩ := h
  cases hmove with
  | quiet hs =>
    refine ⟨hfrom, ?_, ?_, ?_, ?_, ?_, ?_⟩
    · rw [hs.disk]; exact hkept
    · rw [hs.disk]; exact hbelow
    · rw [hs.active]; exact hactive
    · rw [hs.isolated]; exact hisolated
    · exact fun dir cwd hpc => hdelegating dir cwd (hs.delegating dir cwd hpc)
    · rw [hs.starts]; exact hfiles
  | leaveTurn =>
    refine ⟨hfrom, ?_, ?_, ?_, ?_, hdelegating, hfiles⟩
    · exact (get?_cleanupTurnWorkspace hactive).trans hkept
    · rw [cleanupTurnWorkspace_next]; exact hbelow
    · rw [cleanupTurnWorkspace_active]; nofun
    · rw [cleanupTurnWorkspace_isolated]; exact hisolated
  | turnCopyFailed =>
    refine ⟨hfrom, (get?_mkdtemp_of_lt hbelow).trans hkept, Nat.lt_succ_of_lt hbelow, ?_,
      hisolated, nofun, hfiles⟩
    exact fun he => absurd hbelow (Option.some.inj he ▸ lt_irrefl _)
  | @turnStarted s l files hcopy =>
    refine ⟨hfrom, (get?_mkdtemp_of_lt hbelow).trans hkept, Nat.lt_succ_of_lt hbelow, hactive,
      hisolated, ?_, fun t ht => ?_⟩
    · rintro _ _ ⟨⟩
      exact hbelow.ne'
    · rcases List.mem_append.mp ht with ht | ht
      · exact hfiles t ht
      · have htree : s.disk.tree (.tmp b) = content := by rw [Disk.tree, hkept]; rfl
        rw [List.mem_singleton.mp ht, hcopy, show l.baselineCwd = b from hcwd, htree]
  | delegated hpc =>
    refine ⟨hfrom, ?_, ?_, ?_, hisolated, nofun, hfiles⟩
    · exact (Disk.get?_write_of_ne (hdelegating _ _ hpc)).trans hkept
    · rw [Disk.write_next]; exact hbelow
    · exact fun he => hdelegating _ _ hpc (Option.some.inj he)
  | isolated =>
    refine ⟨hfrom, (get?_mkdtemp_of_lt hbelow).trans hkept, Nat.lt_succ_of_lt hbelow, hactive,
      fun hm => ?_, hdelegating, hfiles⟩
    rcases List.mem_append.mp hm with hm | hm
    · exact hisolated hm
    · exact hbelow.ne (List.mem_singleton.mp hm)
  | @left s l outcome =>
    refine ⟨hfrom, (get?_leave hactive hisolated outcome).trans hkept, ?_, ?_, ?_, nofun, hfiles⟩
    · rw [leave_next]; exact hbelow
    · exact fun he => nomatch (cleanupTurnWorkspace_active _).symm.trans he
    · rw [leave, cleanupTurnWorkspace_isolated]; exact List.not_mem_nil

theorem Move.starts_ne_nil {c c' : Suspended} (hmove : Move env c c') (h : c.2.starts ≠ []) :
    c'.2.starts ≠ [] := by
  cases hmove with
  | quiet hs => rw [hs.starts]; exact h
  | turnStarted => exact List.append_ne_nil_of_left_ne_nil h _
  | _ => exact h

/-! ### A loop that begins -/

abbrev resumeStep (env : LoopEnv) (c : Suspended) (i : Tick × Answer) : Suspended :=
  resume env i.1 i.2 c.1 c.2

/-- The call will not start a turn any more. -/
def Pc.over : Pc → Bool
  | .turnReturned (.threw _) | .crashFlushing _ | .finished _ | .rejected => true
  | _ => false

/-- The call has started no turn and will start none. -/
def NoTurn (c : Suspended) : Prop := c.2.pc.over = true ∧ c.2.starts = []

theorem resume_noTurn (answer : Answer) (h : NoTurn (s, l)) :
    NoTurn (resume env tick answer s l) := by
  obtain ⟨hover, hstarts⟩ := h
  unfold resume
  split <;> first
    | exact ⟨rfl, hstarts⟩
    | exact ⟨hover, hstarts⟩
    | (next hl => rw [show l.pc = _ from hl] at hover; cases hover)

theorem NoTurn.run {c : Suspended} (h : NoTurn c) (answers : List (Tick × Answer)) :
    (Run.run (resumeStep env) c answers).2.starts = [] :=
  (Run.run_invariant (fun _ _ hc => resume_noTurn _ hc) answers h).2

theorem startTurn_noTurn (h : tick.faults.turnDir ≠ none ∨ tick.faults.turnCopy ≠ none)
    (hstarts : l.starts = []) : NoTurn (startTurn env tick s l) := by
  rw [startTurn]
  split
  · exact ⟨rfl, hstarts⟩
  · exact ⟨rfl, hstarts⟩
  · next hdir hcopy => exact (h.elim (· hdir) (· hcopy)).elim

/-- A call that has just passed the `busy` check. -/
structure Entering (l : CallState) : Prop where
  turn : l.turn = 0
  turns : l.turns = []
  starts : l.starts = []

/-- A loop that does not get to its first turn is over. -/
theorem beginLoop_noTurn (hl : Entering l) (h : ¬StartsTurn s.baselineSnapshotDir l.config tick) :
    NoTurn (beginLoop env tick s l) := by
  have hhead {s : OrchestratorState} {dir : DirId} {mode : DelegationMode}
      (hfaults : 0 ≤ l.config.maxCorrections →
        tick.faults.turnDir ≠ none ∨ tick.faults.turnCopy ≠ none) :
      NoTurn (loopHead env tick s { l with actualMode := mode, baselineCwd := dir }) := by
    rw [loopHead]
    split
    · next hmax =>
      refine startTurn_noTurn (hfaults ?_) hl.starts
      rwa [hl.turn] at hmax
    · rw [afterLoop]
      split
      · exact ⟨rfl, hl.starts⟩
      · next hlast => rw [leaveTurn, hl.turns] at hlast; cases hlast
  simp only [beginLoop, ensureBaselineSnapshot]
  split
  · exact ⟨rfl, hl.starts⟩
  · next heq =>
    refine hhead fun hmax => ?_
    by_contra hnone
    obtain ⟨hdir, hcopy⟩ := not_or.mp hnone
    refine h ⟨fun hb => ?_, hmax, not_not.mp hdir, not_not.mp hcopy⟩
    rw [hb] at heq
    cases hsnap : tick.faults.snapshot with
    | none => rfl
    | some message => rw [hsnap] at heq; cases heq

theorem loopHead_startsTurn (hturn : l.turn = 0) (snapshot : Option DirId)
    (h : StartsTurn snapshot l.config tick) :
    (loopHead env tick s l).2.starts ≠ [] ∧ (loopHead env tick s l).2.pc ≠ .loading := by
  have hmax : (l.turn : Int) ≤ l.config.maxCorrections := by rw [hturn]; exact h.maxCorrections
  rw [loopHead, if_pos hmax, startTurn, h.turnDir, h.turnCopy]
  exact ⟨List.append_ne_nil_of_right_ne_nil _ (List.cons_ne_nil _ _), by rintro ⟨⟩⟩

theorem run_loopHead {P : Suspended → Prop} (snapshot : Option DirId)
    (hstep : ∀ c c', Move env c c' → P c → P c') (hturn : l.turn = 0)
    (h : StartsTurn snapshot l.config tick) (hP : P (s, l)) (answers : List (Tick × Answer)) :
    let c := Run.run (resumeStep env) (loopHead env tick s l) answers
    c.2.starts ≠ [] ∧ P c := by
  obtain ⟨hne, hpc⟩ : (loopHead env tick s l).2.starts ≠ [] ∧ _ :=
    loopHead_startsTurn hturn snapshot h
  have hrun : Moves env _ (Run.run (resumeStep env) (loopHead env tick s l) answers) :=
    run_resume_moves hpc answers
  exact ⟨hrun.keep (fun _ _ => Move.starts_ne_nil) hne,
    Moves.keep hstep (loopHead_moves.trans hrun) hP⟩

variable (env) in
/-- A loop that gets to its first turn starts its turns from the snapshot that is there, or else
from a new one. -/
theorem beginLoop_startsTurn (hs : StateBelow s) (hl : Entering l) (hpc : l.pc = .loading)
    (h : StartsTurn s.baselineSnapshotDir l.config tick) (answers : List (Tick × Answer)) :
    let c := Run.run (resumeStep env) (beginLoop env tick s l) answers
    c.2.starts ≠ [] ∧
      match s.baselineSnapshotDir with
      | some b => TurnsFrom b c
      | none => SnapshotKept env s.disk.next
          (baselineSnapshot (env.path s.cwd) (s.disk.tree s.cwd)) c := by
  have hnil {b : DirId} : ∀ t ∈ l.starts, t.baseline = b := by rw [hl.starts]; rintro _ ⟨⟩
  simp only [beginLoop, ensureBaselineSnapshot]
  cases hb : s.baselineSnapshotDir with
  | some b =>
    refine run_loopHead (P := TurnsFrom b) s.baselineSnapshotDir (fun _ _ => Move.turnsFrom)
      ?_ ?_ ?_ answers
    · exact hl.turn
    · exact h
    · exact ⟨rfl, hnil⟩
  | none =>
    rw [h.fault hb]
    refine run_loopHead (P := SnapshotKept env s.disk.next _) s.baselineSnapshotDir
      (fun _ _ => Move.snapshotKept) ?_ ?_ ?_ answers
    · exact hl.turn
    · exact h
    refine ⟨⟨rfl, hnil⟩, ?_, ?_, ?_, ?_, ?_, ?_⟩
    · exact Disk.get?_mkdtemp.trans (if_pos rfl)
    · exact Nat.lt_succ_self _
    · exact fun he => absurd (hs.active _ he) (lt_irrefl _)
    · exact fun hm => absurd (hs.isolated _ hm) (lt_irrefl _)
    · exact fun dir cwd hd => by cases hpc.symm.trans hd
    · exact fun t ht => by rw [hl.starts] at ht; cases ht

variable (env s l) in
theorem run_of_loading (hpc : l.pc = .loading) (answers : List (Tick × Answer)) :
    let c := Run.run (resumeStep env) (s, l) answers
    match loadedAt answers with
    | none => l.starts = [] → c.2.starts = []
    | some tick => ∃ rest,
        c = Run.run (resumeStep env) (beginLoop env tick { s with classifierLoaded := true } l)
          rest := by
  induction answers with
  | nil => exact id
  | cons i answers ih =>
    obtain ⟨tick, answer⟩ := i
    have hstay (h : resume env tick answer s l = (s, l)) :
        Run.run (resumeStep env) (s, l) ((tick, answer) :: answers) =
          Run.run (resumeStep env) (s, l) answers := by rw [Run.run_cons, resumeStep, h]
    cases answer with
    | settled =>
      have hbegin : resume env tick .settled s l =
          beginLoop env tick { s with classifierLoaded := true } l := by simp only [resume, hpc]
      exact ⟨answers, by rw [Run.run_cons, resumeStep, hbegin]⟩
    | rejected message =>
      have hcrash : resume env tick (.rejected message) s l = crash env tick message s l := by
        simp only [resume, hpc]
      rw [loadedAt, Run.run_cons, resumeStep, hcrash]
      exact fun hstarts => NoTurn.run ⟨rfl, hstarts⟩ answers
    | delegated => rw [hstay (by simp only [resume, hpc])]; exact ih
    | exited => rw [hstay (by simp only [resume, hpc])]; exact ih

variable (env) in
/-- A call is let in and begins the turn loop, or it starts no turn. -/
theorem runCall_begins (tick : Tick) (taskIdNow : String) (task : TaskInput)
    (config : CorrectionLoopConfig) (answers : List (Tick × Answer)) (s : OrchestratorState) :
    let c := runCall env tick taskIdNow task config answers s
    match (LoopOp.loop tick taskIdNow task config answers).begins s with
    | none => c.2.starts = []
    | some began => ∃ loaded rest,
      c = Run.run (resumeStep env)
        (beginLoop env began { s with busy := true, classifierLoaded := loaded }
          (.initial taskIdNow task config)) rest := by
  simp only [runCall, startCall, LoopOp.begins]
  cases hbusy : s.busy with
  | true =>
    simp only [if_true]
    exact NoTurn.run ⟨rfl, rfl⟩ answers
  | false =>
    simp only [Bool.false_eq_true, if_false]
    by_cases hload : s.classifierMemory.isSome = true ∧ s.classifierLoaded = false
    · simp only [if_pos hload]
      have hrun := run_of_loading env { s with busy := true }
        (.initial taskIdNow task config) rfl answers
      cases hat : loadedAt answers with
      | none => rw [hat] at hrun; exact hrun rfl
      | some began =>
        rw [hat] at hrun
        obtain ⟨rest, hrest⟩ := hrun
        exact ⟨true, rest, hrest⟩
    · simp only [if_neg hload]
      exact ⟨_, answers, rfl⟩

theorem complete_iff {path path' : String} {tree : Tree} :
    CompleteCopy tree (turnWorkspace path (baselineSnapshot path' tree)) ↔
      ∀ p, p.any isExcluded = false → tree.read? p = none := by
  rw [turnWorkspace, cpSync_turnCopyFilter, completeCopy_nil_iff]

theorem step_below (hs : StateBelow s) (op : LoopOp) : StateBelow (op.step env s) := by
  cases op with
  | edit user => exact ⟨hs.active, hs.isolated, hs.baseline⟩
  | loop tick taskIdNow task config answers =>
    exact (Run.run_invariant (fun c i h => resume_directories env i.1 i.2 h) answers
      (startCall_directories env tick hs taskIdNow task config)).below

theorem freshBaseline_iff_nothingToCopy (hs : StateBelow s) (op : LoopOp) :
    FreshBaseline env s op ↔ NothingToCopy s op := by
  cases op with
  | edit user => exact iff_of_true (fun t ht => absurd ht List.not_mem_nil) trivial
  | loop tick taskIdNow task config answers =>
    have hbegins := runCall_begins env tick taskIdNow task config answers s
    rw [FreshBaseline, LoopOp.starts, NothingToCopy]
    generalize runCall env tick taskIdNow task config answers s = c at hbegins
    have hvacuous (hc : c.2.starts = []) : ∀ t ∈ c.2.starts, FreshStart env s t := by
      rw [hc]; nofun
    cases hb : (LoopOp.loop tick taskIdNow task config answers).begins s with
    | none => rw [hb] at hbegins; exact iff_of_true (hvacuous hbegins) nofun
    | some began =>
      rw [hb] at hbegins
      obtain ⟨loaded, rest, hc⟩ := hbegins
      have hl : Entering (.initial taskIdNow task config) := ⟨rfl, rfl, rfl⟩
      by_cases hstart : StartsTurn s.baselineSnapshotDir config began
      · have hturns := beginLoop_startsTurn env
          (s := { s with busy := true, classifierLoaded := loaded })
          ⟨hs.active, hs.isolated, hs.baseline⟩ hl rfl hstart rest
        rw [← hc] at hturns
        obtain ⟨hne, hturns⟩ := hturns
        obtain ⟨t₀, ht₀⟩ := List.exists_mem_of_ne_nil _ hne
        cases hsnap : s.baselineSnapshotDir with
        | some b =>
          simp only [hsnap] at hturns
          refine iff_of_false (fun h => ?_) fun h => nomatch (h began rfl (hsnap ▸ hstart)).1
          have := (h t₀ ht₀).own
          rw [hturns.starts t₀ ht₀] at this
          exact absurd (hs.baseline b hsnap) (not_lt.mpr this)
        | none =>
          simp only [hsnap] at hturns
          constructor
          · rintro h _ ⟨⟩ -
            have hcomplete := (h t₀ ht₀).complete
            rw [hturns.files t₀ ht₀] at hcomplete
            exact ⟨rfl, complete_iff.mp hcomplete⟩
          · intro h t ht
            have hbaseline := hturns.starts t ht
            refine ⟨hbaseline.ge, hbaseline ▸ hturns.files t ht, ?_⟩
            rw [hturns.files t ht]
            exact complete_iff.mpr (h began rfl (hsnap ▸ hstart)).2
      · refine iff_of_true (hvacuous ?_) ?_
        · have hover : NoTurn (beginLoop env began _ _) := beginLoop_noTurn
            (s := { s with busy := true, classifierLoaded := loaded }) hl hstart
          rw [hc]; exact hover.run rest
        · rintro _ ⟨⟩ h
          exact (hstart h).elim

theorem freshBaseline_iff (env : LoopEnv) (user : Tree)
    (classifierMemory : Option (List LearnedExample)) (ops : List LoopOp) :
    Run.AllSteps (LoopOp.step env) (FreshBaseline env) (.fresh user classifierMemory) ops ↔
      Run.AllSteps (LoopOp.step env) NothingToCopy (.fresh user classifierMemory) ops := by
  have hinit : StateBelow (.fresh user classifierMemory) :=
    ⟨nofun, fun _ hdir => absurd hdir List.not_mem_nil, nofun⟩
  constructor
  · exact Run.AllSteps.mono (fun _ op h => step_below h op)
      (fun _ op h => (freshBaseline_iff_nothingToCopy h op).mp) hinit
  · exact Run.AllSteps.mono (fun _ op h => step_below h op)
      (fun _ op h => (freshBaseline_iff_nothingToCopy h op).mpr) hinit

/-- A loop with one turn, whose delegation fails. -/
def failedLoop : LoopOp :=
  let tick : Tick := { now := "" }
  .loop tick "task" { description := "task" } { maxCorrections := 0 }
    [(tick, .delegated (.failed "no provider") .nil), (tick, .settled), (tick, .settled),
      (tick, .settled), (tick, .settled)]

/-- The user adds a file between two loops. -/
def editedBetween : List LoopOp :=
  [failedLoop, .edit (.file ⟨"a.ts", by decide, by decide⟩ "export {}" .nil), failedLoop]

/-- Both loops are complete, and the second starts from the snapshot of the first. -/
theorem editedBetween_stale :
    let env : LoopEnv := {
      classifyTask _ _ := .hardPrompt
      policyHash := none
      allowUnsafeValidatorShell := false
      cwdPath := "/work" }
    let s := Run.run (LoopOp.step env) (.fresh .nil none) (editedBetween.take 2)
    (failedLoop.starts env (.fresh .nil none)).map (·.baseline) = [0] ∧
      (failedLoop.starts env s).map (·.baseline) = [0] ∧ s.disk.next = 2 ∧
      ¬Run.AllSteps (LoopOp.step env) (FreshBaseline env) (.fresh .nil none) editedBetween := by
  intro env s
  have hstarts : (failedLoop.starts env s).map (·.baseline) = [0] := by decide
  have hnext : s.disk.next = 2 := by decide
  refine ⟨by decide, hstarts, hnext, fun h => ?_⟩
  obtain ⟨t, ht, hbaseline⟩ : ∃ t ∈ failedLoop.starts env s, t.baseline = 0 :=
    List.mem_map.mp (by rw [hstarts]; exact List.mem_singleton_self 0)
  have hown : s.disk.next ≤ t.baseline := (h.2.2.1 t ht).own
  rw [hnext, hbaseline] at hown
  exact absurd hown (by decide)

end KirkForge
