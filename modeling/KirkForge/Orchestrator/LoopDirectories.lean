import KirkForge.Orchestrator.CorrectionLoop
import Mathlib.Logic.Relation

/-!
# The temporary directories of a correction loop

`Move` lists everything that a call does to the temporary directories after its baseline is
fixed: each segment of the loop is a sequence of moves (`resume_moves`), so that a fact about
directories needs one case per move. `Directories` is such a fact: the directories that a call has
made for itself are there, and removing one of them does not touch the others.
-/

namespace KirkForge

variable {env : LoopEnv} {tick : Tick} {s : OrchestratorState} {l : CallState}

/-! ### Removing directories -/

namespace Disk

variable {d : Disk} {dir x : DirId} {content : Tree}

theorem get?_mkdtemp : (d.mkdtemp content).tmp.get? x =
    if d.next = x then some content else d.tmp.get? x := OrderedMap.get?_set ..

theorem get?_rm : (d.rm dir).tmp.get? x = if dir = x then none else d.tmp.get? x :=
  OrderedMap.get?_delete ..

theorem get?_write_of_ne (h : dir ≠ x) : (d.write dir content).tmp.get? x = d.tmp.get? x := by
  rw [write]
  split
  · exact OrderedMap.get?_set_of_ne _ h _
  · rfl

theorem write_next : (d.write dir content).next = d.next := by
  rw [write]
  split <;> rfl

theorem has_write (h : d.tmp.has x = true) : (d.write dir content).tmp.has x = true := by
  rw [write]
  split
  · rw [OrderedMap.has, OrderedMap.get?_set]
    split
    · rfl
    · exact h
  · exact h

theorem foldl_rm_next (dirs : List DirId) : (dirs.foldl rm d).next = d.next := by
  induction dirs generalizing d with
  | nil => rfl
  | cons dir dirs ih => exact ih

theorem get?_foldl_rm {dirs : List DirId} (h : x ∉ dirs) :
    (dirs.foldl rm d).tmp.get? x = d.tmp.get? x := by
  induction dirs generalizing d with
  | nil => rfl
  | cons dir dirs ih =>
    rw [List.foldl_cons, ih (List.not_mem_of_not_mem_cons h), get?_rm,
      if_neg (List.ne_of_not_mem_cons h).symm]

end Disk

theorem cleanupTurnWorkspace_next (s : OrchestratorState) :
    (cleanupTurnWorkspace s).disk.next = s.disk.next := by
  rw [cleanupTurnWorkspace]
  split <;> rfl

theorem cleanupTurnWorkspace_active (s : OrchestratorState) :
    (cleanupTurnWorkspace s).activeTurnWorkspace = none := by
  rw [cleanupTurnWorkspace]
  split
  · rfl
  · next h => exact h

theorem cleanupTurnWorkspace_isolated (s : OrchestratorState) :
    (cleanupTurnWorkspace s).isolatedWorkspaceDirs = s.isolatedWorkspaceDirs := by
  rw [cleanupTurnWorkspace]
  split <;> rfl

theorem cleanupTurnWorkspace_baseline (s : OrchestratorState) :
    (cleanupTurnWorkspace s).baselineSnapshotDir = s.baselineSnapshotDir := by
  rw [cleanupTurnWorkspace]
  split <;> rfl

theorem get?_cleanupTurnWorkspace {x : DirId} (h : s.activeTurnWorkspace ≠ some x) :
    (cleanupTurnWorkspace s).disk.tmp.get? x = s.disk.tmp.get? x := by
  rw [cleanupTurnWorkspace]
  split
  · next dir hdir => rw [Disk.get?_rm, if_neg fun hx => h (hdir.trans (congrArg some hx))]
  · rfl

theorem leave_next (outcome : CorrectionLoopOutcome) :
    (leave outcome s l).1.disk.next = s.disk.next :=
  (cleanupTurnWorkspace_next _).trans (Disk.foldl_rm_next _)

theorem get?_leave {x : DirId} (hactive : s.activeTurnWorkspace ≠ some x)
    (hisolated : x ∉ s.isolatedWorkspaceDirs) (outcome : CorrectionLoopOutcome) :
    (leave outcome s l).1.disk.tmp.get? x = s.disk.tmp.get? x :=
  (get?_cleanupTurnWorkspace (s := cleanupIsolatedWorkspace { s with busy := false }) hactive).trans
    (Disk.get?_foldl_rm hisolated)

/-! ### Moves -/

/-- Nothing changes about the directories. -/
structure SameDirectories (c c' : Suspended) : Prop where
  disk : c'.1.disk = c.1.disk
  active : c'.1.activeTurnWorkspace = c.1.activeTurnWorkspace
  isolated : c'.1.isolatedWorkspaceDirs = c.1.isolatedWorkspaceDirs
  baseline : c'.1.baselineSnapshotDir = c.1.baselineSnapshotDir
  turnDir : c'.2.turnDir = c.2.turnDir
  validatorDirs : c'.2.validatorDirs = c.2.validatorDirs
  starts : c'.2.starts = c.2.starts
  baselineCwd : c'.2.baselineCwd = c.2.baselineCwd
  delegating : ∀ dir cwd, c'.2.pc = .delegating dir cwd → c.2.pc = .delegating dir cwd
  loading : c'.2.pc = .loading → c.2.pc = .loading

inductive Move (env : LoopEnv) : Suspended → Suspended → Prop
  | quiet {c c'} (h : SameDirectories c c') : Move env c c'
  | leaveTurn {s : OrchestratorState} {l : CallState} :
      Move env (s, l) (cleanupTurnWorkspace s, leaveTurn l)
  | turnCopyFailed {s : OrchestratorState} {l : CallState} {result} : Move env (s, l)
      ({ s with disk := s.disk.mkdtemp .nil, activeTurnWorkspace := some s.disk.next },
        { l with turnDir := some s.disk.next, pc := .turnReturned result })
  | turnStarted {s : OrchestratorState} {l : CallState} {files}
      (hfiles : files =
        turnWorkspace (env.path (.tmp l.baselineCwd)) (s.disk.tree (.tmp l.baselineCwd))) :
      Move env (s, l) ({ s with disk := s.disk.mkdtemp files, cwd := .tmp s.disk.next },
        { l with
          starts := l.starts ++ [⟨l.baselineCwd, files⟩]
          turnDir := some s.disk.next
          pc := .delegating s.disk.next s.cwd })
  | delegated {s : OrchestratorState} {l : CallState} {dir cwd delegation files result}
      (hpc : l.pc = .delegating dir cwd) :
      Move env (s, l) ({ s with
        delegation
        disk := s.disk.write dir files
        cwd
        activeTurnWorkspace := some dir }, { l with pc := .turnReturned result })
  | isolated {s : OrchestratorState} {l : CallState} {content} : Move env (s, l)
      ({ s with
        disk := s.disk.mkdtemp content
        isolatedWorkspaceDirs := s.isolatedWorkspaceDirs ++ [s.disk.next] },
        { l with validatorDirs := l.validatorDirs ++ [s.disk.next] })
  | left {s : OrchestratorState} {l : CallState} (outcome) : Move env (s, l) (leave outcome s l)

abbrev Moves (env : LoopEnv) : Suspended → Suspended → Prop := Relation.ReflTransGen (Move env)

theorem Moves.quiet {c c' : Suspended} (h : SameDirectories c c') : Moves env c c' :=
  .single (.quiet h)

/-- Only the position in the call changes. -/
theorem moves_withPc {pc : Pc} (hdelegating : ∀ dir cwd, pc ≠ .delegating dir cwd)
    (hloading : pc ≠ .loading) : Moves env (s, l) (s, { l with pc }) :=
  .quiet ⟨rfl, rfl, rfl, rfl, rfl, rfl, rfl, rfl, fun dir cwd h => (hdelegating dir cwd h).elim,
    fun h => (hloading h).elim⟩

theorem moves_push (d : CorrectionDecision) (p : ReducedStatePacket) (r : TurnRecord) :
    Moves env (s, l) (s, l.push d p r) :=
  .quiet ⟨rfl, rfl, rfl, rfl, rfl, rfl, rfl, rfl, fun _ _ h => h, id⟩

theorem crash_moves (message : String) : Moves env (s, l) (crash env tick message s l) :=
  .quiet ⟨rfl, rfl, rfl, rfl, rfl, rfl, rfl, rfl, nofun, nofun⟩

theorem afterLoop_moves : Moves env (s, l) (afterLoop env tick s l) := by
  refine .head .leaveTurn ?_
  rw [afterLoop]
  split
  · exact crash_moves _
  · exact moves_withPc nofun nofun

theorem startTurn_moves : Moves env (s, l) (startTurn env tick s l) := by
  rw [startTurn]
  split
  · exact moves_withPc nofun nofun
  · exact .single .turnCopyFailed
  · exact .single (.turnStarted rfl)

theorem loopHead_moves : Moves env (s, l) (loopHead env tick s l) := by
  rw [loopHead]
  split
  · exact startTurn_moves
  · exact afterLoop_moves

theorem validatorErrored_moves {packet : ReducedStatePacket} {wt : Nat} :
    Moves env (s, l) (validatorErrored env tick packet wt s l) :=
  (moves_push ..).trans afterLoop_moves

theorem judge_moves {packet : ReducedStatePacket} {wt : Nat} {ran : Option TaskValidationResult} :
    Moves env (s, l) (judge env tick packet wt ran s l) := by
  rw [judge]
  refine (moves_push (decideTurn packet wt l) packet (.judged ran)).trans ?_
  split
  · refine .trans (.single (.quiet ?_)) loopHead_moves
    exact ⟨rfl, rfl, rfl, rfl, rfl, rfl, rfl, rfl, fun _ _ h => h, id⟩
  · exact afterLoop_moves

theorem afterValidation_moves {packet : ReducedStatePacket} {wt : Nat}
    {ran : Option TaskValidationResult} :
    Moves env (s, l) (afterValidation env tick packet wt ran s l) := by
  rw [afterValidation]
  refine .head .leaveTurn ?_
  split
  · exact validatorErrored_moves
  · exact judge_moves

theorem delegationFailed_moves (message : String) :
    Moves env (s, l) (delegationFailed env tick message s l) :=
  (moves_push ..).trans (.head .leaveTurn afterLoop_moves)

theorem isolate_moves {packet : ReducedStatePacket} {wt : Nat} :
    Moves env (s, l) (isolate env tick packet wt s l) := by
  rw [isolate, createIsolatedWorkspace]
  split
  · exact moves_withPc nofun nofun
  · exact .head .isolated (moves_withPc nofun nofun)

theorem afterTurn_moves {value : DelegationResult} :
    Moves env (s, l) (afterTurn env tick value s l) := by
  rw [afterTurn]
  have haccount : Moves env (s, l) (s, account value l) :=
    .quiet ⟨rfl, rfl, rfl, rfl, rfl, rfl, rfl, rfl, fun _ _ h => h, id⟩
  refine haccount.trans ?_
  split
  · exact isolate_moves
  · split
    · exact isolate_moves
    · exact moves_withPc nofun nofun
  · exact afterValidation_moves

theorem startValidator_moves {packet : ReducedStatePacket} {wt : Nat} {isolated : DirId} :
    Moves env (s, l) (startValidator env tick packet wt isolated s l) := by
  rw [startValidator]
  split
  · dsimp only
    split <;> exact moves_withPc nofun nofun
  · exact moves_withPc nofun nofun

variable (env tick) in
/-- What a call does between two `await`s once it has left the first. -/
theorem resume_moves (answer : Answer) (hpc : l.pc ≠ .loading) :
    Moves env (s, l) (resume env tick answer s l) := by
  unfold resume
  split
  · next hl => exact (hpc hl).elim
  · next hl => exact (hpc hl).elim
  · next hl => exact .single (.delegated hl)
  · exact afterTurn_moves
  · exact delegationFailed_moves _
  · exact crash_moves _
  · exact startValidator_moves
  · exact crash_moves _
  · exact moves_withPc nofun nofun
  · refine .trans (.single (.quiet ?_)) afterValidation_moves
    exact ⟨rfl, rfl, rfl, rfl, rfl, rfl, rfl, rfl, fun _ _ h => h, id⟩
  · exact moves_withPc nofun nofun
  · exact .quiet ⟨rfl, rfl, rfl, rfl, rfl, rfl, rfl, rfl, nofun, nofun⟩
  · exact crash_moves _
  · exact .single (.left _)
  · exact crash_moves _
  · exact .single (.left _)
  · exact .single (.left _)
  · exact .refl

/-- A property kept by every move is kept by a sequence of moves. -/
theorem Moves.keep {P : Suspended → Prop} (hstep : ∀ c c', Move env c c' → P c → P c')
    {c c' : Suspended} (h : Moves env c c') (hc : P c) : P c' := by
  induction h with
  | refl => exact hc
  | tail _ hmove ih => exact hstep _ _ hmove ih

theorem Move.not_loading {c c' : Suspended} (hmove : Move env c c') (h : c.2.pc ≠ .loading) :
    c'.2.pc ≠ .loading := by
  cases hmove with
  | quiet hs => exact fun hl => h (hs.loading hl)
  | leaveTurn | isolated => exact h
  | _ => nofun

/-- The part of a call that follows its first `await`. -/
theorem run_resume_moves {c : Suspended} (h : c.2.pc ≠ .loading)
    (answers : List (Tick × Answer)) :
    Moves env c
      (Run.run (fun c (i : Tick × Answer) => resume env i.1 i.2 c.1 c.2) c answers) := by
  induction answers generalizing c with
  | nil => exact .refl
  | cons i answers ih =>
    have hmoves : Moves env c (resume env i.1 i.2 c.1 c.2) := resume_moves env i.1 i.2 h
    exact hmoves.trans (ih (hmoves.keep (fun _ _ => Move.not_loading) h))

/-! ### The directories of a call -/

/-- The directories that the orchestrator knows were made before the next one. -/
structure StateBelow (s : OrchestratorState) : Prop where
  active : ∀ dir, s.activeTurnWorkspace = some dir → dir < s.disk.next
  isolated : ∀ dir ∈ s.isolatedWorkspaceDirs, dir < s.disk.next
  baseline : ∀ dir, s.baselineSnapshotDir = some dir → dir < s.disk.next

/-- The directories that a call has made and not removed are there, and they are told apart from
one another by the orchestrator's fields. -/
structure CallOwns (s : OrchestratorState) (l : CallState) : Prop where
  turn : ∀ dir, l.turnDir = some dir →
    s.disk.tmp.has dir = true ∧ dir < s.disk.next ∧ dir ∉ l.validatorDirs
  validators : ∀ dir ∈ l.validatorDirs,
    s.disk.tmp.has dir = true ∧ dir < s.disk.next ∧ s.activeTurnWorkspace ≠ some dir
  delegating : ∀ dir cwd, l.pc = .delegating dir cwd →
    dir < s.disk.next ∧ dir ∉ l.validatorDirs

structure Directories (c : Suspended) : Prop where
  below : StateBelow c.1
  owns : CallOwns c.1 c.2

theorem has_mkdtemp {d : Disk} {content : Tree} {x : DirId} (h : d.tmp.has x = true) :
    (d.mkdtemp content).tmp.has x = true := by
  rw [OrderedMap.has, Disk.get?_mkdtemp]
  split
  · rfl
  · exact h

theorem has_mkdtemp_next {d : Disk} {content : Tree} :
    (d.mkdtemp content).tmp.has d.next = true := by
  rw [OrderedMap.has, Disk.get?_mkdtemp, if_pos rfl]
  rfl

theorem StateBelow.mkdtemp (h : StateBelow s) {content : Tree} :
    StateBelow { s with disk := s.disk.mkdtemp content } where
  active dir hdir := Nat.lt_succ_of_lt (h.active dir hdir)
  isolated dir hdir := Nat.lt_succ_of_lt (h.isolated dir hdir)
  baseline dir hdir := Nat.lt_succ_of_lt (h.baseline dir hdir)

theorem CallOwns.mkdtemp (h : CallOwns s l) {content : Tree} :
    CallOwns { s with disk := s.disk.mkdtemp content } l where
  turn dir hdir := by
    obtain ⟨hhas, hlt, hnot⟩ := h.turn dir hdir
    exact ⟨has_mkdtemp hhas, Nat.lt_succ_of_lt hlt, hnot⟩
  validators dir hdir := by
    obtain ⟨hhas, hlt, hne⟩ := h.validators dir hdir
    exact ⟨has_mkdtemp hhas, Nat.lt_succ_of_lt hlt, hne⟩
  delegating dir cwd hpc := by
    obtain ⟨hlt, hnot⟩ := h.delegating dir cwd hpc
    exact ⟨Nat.lt_succ_of_lt hlt, hnot⟩

/-- The next directory is not one of the call's. -/
theorem CallOwns.next_not_mem (h : CallOwns s l) : s.disk.next ∉ l.validatorDirs := fun hm =>
  absurd (h.validators _ hm).2.1 (lt_irrefl _)

theorem Move.directories {c c' : Suspended} (hmove : Move env c c') (h : Directories c) :
    Directories c' := by
  obtain ⟨hbelow, howns⟩ := h
  cases hmove with
  | quiet hs =>
    refine ⟨⟨?_, ?_, ?_⟩, ⟨?_, ?_, ?_⟩⟩
    · rw [hs.active, hs.disk]; exact hbelow.active
    · rw [hs.isolated, hs.disk]; exact hbelow.isolated
    · rw [hs.baseline, hs.disk]; exact hbelow.baseline
    · rw [hs.turnDir, hs.disk, hs.validatorDirs]; exact howns.turn
    · rw [hs.validatorDirs, hs.disk, hs.active]; exact howns.validators
    · rw [hs.disk, hs.validatorDirs]
      exact fun dir cwd hpc => howns.delegating dir cwd (hs.delegating dir cwd hpc)
  | @leaveTurn s l =>
    refine ⟨⟨?_, ?_, ?_⟩, ⟨by rintro _ ⟨⟩, fun dir hdir => ?_, ?_⟩⟩
    · rw [cleanupTurnWorkspace_active]; rintro _ ⟨⟩
    · rw [cleanupTurnWorkspace_isolated, cleanupTurnWorkspace_next]; exact hbelow.isolated
    · rw [cleanupTurnWorkspace_baseline, cleanupTurnWorkspace_next]; exact hbelow.baseline
    · obtain ⟨hhas, hlt, hne⟩ := howns.validators dir hdir
      rw [OrderedMap.has, get?_cleanupTurnWorkspace hne, cleanupTurnWorkspace_next,
        cleanupTurnWorkspace_active]
      exact ⟨hhas, hlt, by rintro ⟨⟩⟩
    · rw [cleanupTurnWorkspace_next]; exact howns.delegating
  | @turnCopyFailed s l =>
    have hb : StateBelow { s with disk := s.disk.mkdtemp .nil } := hbelow.mkdtemp
    have ho : CallOwns { s with disk := s.disk.mkdtemp .nil } l := howns.mkdtemp
    refine ⟨⟨?_, hb.isolated, hb.baseline⟩, ⟨?_, fun dir hdir => ?_, by rintro _ _ ⟨⟩⟩⟩
    · rintro _ ⟨⟩
      exact Nat.lt_succ_self _
    · rintro _ ⟨⟩
      exact ⟨has_mkdtemp_next, Nat.lt_succ_self _, howns.next_not_mem⟩
    · obtain ⟨hhas, hlt, -⟩ := ho.validators dir hdir
      refine ⟨hhas, hlt, fun he => howns.next_not_mem ?_⟩
      rw [Option.some.inj he]
      exact hdir
  | @turnStarted s l files =>
    have hb : StateBelow { s with disk := s.disk.mkdtemp files } := hbelow.mkdtemp
    have ho : CallOwns { s with disk := s.disk.mkdtemp files } l := howns.mkdtemp
    refine ⟨⟨hb.active, hb.isolated, hb.baseline⟩, ⟨?_, ho.validators, ?_⟩⟩
    · rintro _ ⟨⟩
      exact ⟨has_mkdtemp_next, Nat.lt_succ_self _, howns.next_not_mem⟩
    · rintro _ _ ⟨⟩
      exact ⟨Nat.lt_succ_self _, howns.next_not_mem⟩
  | @delegated s l dir cwd delegation files result hpc =>
    obtain ⟨hlt, hnot⟩ := howns.delegating dir cwd hpc
    refine ⟨⟨?_, ?_, ?_⟩, ⟨fun x hx => ?_, fun x hx => ?_, by rintro _ _ ⟨⟩⟩⟩
    · rintro _ ⟨⟩
      rw [Disk.write_next]; exact hlt
    · rw [Disk.write_next]; exact hbelow.isolated
    · rw [Disk.write_next]; exact hbelow.baseline
    · obtain ⟨hhas, hx', hv⟩ := howns.turn x hx
      exact ⟨Disk.has_write hhas, by rw [Disk.write_next]; exact hx', hv⟩
    · obtain ⟨hhas, hx', -⟩ := howns.validators x hx
      refine ⟨Disk.has_write hhas, by rw [Disk.write_next]; exact hx', ?_⟩
      rintro ⟨⟩
      exact hnot hx
  | @isolated s l content =>
    have hb : StateBelow { s with disk := s.disk.mkdtemp content } := hbelow.mkdtemp
    have ho : CallOwns { s with disk := s.disk.mkdtemp content } l := howns.mkdtemp
    have hnew {dir : DirId} (hlt : dir < s.disk.next) (hnot : dir ∉ l.validatorDirs) :
        dir ∉ l.validatorDirs ++ [s.disk.next] := fun hm =>
      (List.mem_append.mp hm).elim hnot fun hm => hlt.ne (List.mem_singleton.mp hm)
    refine ⟨⟨hb.active, fun dir hdir => ?_, hb.baseline⟩,
      ⟨fun dir hdir => ?_, fun dir hdir => ?_, fun dir cwd hpc => ?_⟩⟩
    · rcases List.mem_append.mp hdir with hdir | hdir
      · exact hb.isolated dir hdir
      · rw [List.mem_singleton.mp hdir]; exact Nat.lt_succ_self _
    · obtain ⟨-, hlt, hnot⟩ := howns.turn dir hdir
      exact ⟨(ho.turn dir hdir).1, Nat.lt_succ_of_lt hlt, hnew hlt hnot⟩
    · rcases List.mem_append.mp hdir with hdir | hdir
      · exact ho.validators dir hdir
      · rw [List.mem_singleton.mp hdir]
        exact ⟨has_mkdtemp_next, Nat.lt_succ_self _, fun he =>
          absurd (hbelow.active _ he) (lt_irrefl _)⟩
    · obtain ⟨hlt, hnot⟩ := howns.delegating dir cwd hpc
      exact ⟨Nat.lt_succ_of_lt hlt, hnew hlt hnot⟩
  | @left s l outcome =>
    refine ⟨⟨?_, ?_, ?_⟩, ⟨by rintro _ ⟨⟩, by rintro _ ⟨⟩, by rintro _ _ ⟨⟩⟩⟩
    · intro dir hdir
      cases (cleanupTurnWorkspace_active _).symm.trans hdir
    · intro dir hdir
      rw [leave, cleanupTurnWorkspace_isolated] at hdir
      cases hdir
    · intro dir hdir
      rw [leave, cleanupTurnWorkspace_baseline] at hdir
      rw [leave_next]
      exact hbelow.baseline dir hdir

theorem Moves.directories {c c' : Suspended} (h : Moves env c c') (hc : Directories c) :
    Directories c' :=
  h.keep (fun _ _ hmove => hmove.directories) hc

theorem beginLoop_directories (h : Directories (s, l)) :
    Directories (beginLoop env tick s l) := by
  obtain ⟨hbelow, howns⟩ := h
  simp only [beginLoop, ensureBaselineSnapshot]
  cases hsnap : s.baselineSnapshotDir with
  | some dir =>
    exact Moves.directories loopHead_moves
      ⟨⟨hbelow.1, hbelow.2, hbelow.3⟩, ⟨howns.1, howns.2, howns.3⟩⟩
  | none =>
    cases tick.faults.snapshot with
    | some message =>
      exact Moves.directories (crash_moves message)
        ⟨⟨hbelow.1, hbelow.2, hbelow.3⟩, ⟨howns.1, howns.2, howns.3⟩⟩
    | none =>
      let content := baselineSnapshot (env.path s.cwd) (s.disk.tree s.cwd)
      have hb : StateBelow { s with disk := s.disk.mkdtemp content } := hbelow.mkdtemp
      have ho : CallOwns { s with disk := s.disk.mkdtemp content } l := howns.mkdtemp
      refine Moves.directories loopHead_moves
        ⟨⟨hb.active, hb.isolated, ?_⟩, ⟨ho.turn, ho.validators, ho.delegating⟩⟩
      rintro _ ⟨⟩
      exact Nat.lt_succ_self _

variable (env tick) in
theorem resume_directories (answer : Answer) (h : Directories (s, l)) :
    Directories (resume env tick answer s l) := by
  by_cases hpc : l.pc = .loading
  · unfold resume
    rw [hpc]
    split
    · exact beginLoop_directories ⟨⟨h.1.1, h.1.2, h.1.3⟩, ⟨h.2.1, h.2.2, h.2.3⟩⟩
    · exact Moves.directories (crash_moves _) h
    all_goals first | contradiction | exact h
  · exact (resume_moves env tick answer hpc).directories h

variable (env tick) in
theorem startCall_directories (h : StateBelow s) (taskIdNow : String) (task : TaskInput)
    (config : CorrectionLoopConfig) :
    Directories (startCall env tick taskIdNow task config s) := by
  have hnew (busy : Bool) (l : CallState) (ht : l.turnDir = none) (hv : l.validatorDirs = [])
      (hd : ∀ dir cwd, l.pc ≠ .delegating dir cwd) : Directories ({ s with busy }, l) :=
    ⟨⟨h.1, h.2, h.3⟩, ⟨by rw [ht]; nofun, by rw [hv]; nofun,
      fun dir cwd hpc => (hd dir cwd hpc).elim⟩⟩
  simp only [startCall]
  split
  · exact hnew _ _ rfl rfl nofun
  split
  · exact hnew _ _ rfl rfl nofun
  · exact beginLoop_directories (hnew _ _ rfl rfl nofun)

end KirkForge
