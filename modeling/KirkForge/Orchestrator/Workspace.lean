import KirkForge.Theory.FileTree
import KirkForge.Theory.Text

/-!
# Workspace copies

The copies of a source directory that a correction loop works in (`orchestrator-workspace.ts`): the
baseline snapshot, the workspace of a turn and the workspace of a validator. Each is made in an
empty temporary directory by `cpSync` with a filter that calls `shouldExcludeFromTurnCopy`
(`workspace.ts`). A path is absolute and has no trailing slash.
-/

namespace KirkForge

open Directory

variable {α : Type*}

def turnCopyExcluded : List String :=
  ["node_modules", ".git", "dist", ".tsbuildinfo", "tsconfig.tsbuildinfo"]

def shouldExcludeFromTurnCopy (src : String) (baseLen : Nat) : Bool :=
  let rel := Text.sliceFrom src (baseLen + 1)
  if rel = "" then false
  else
    let segments := Text.split '/' rel
    if segments.any (· ∈ turnCopyExcluded) then true
    else
      match segments.getLast? with
      | some last => last ≠ "" && last ∈ turnCopyExcluded
      | none => false

/-- `cpSync(src, dest, { recursive: true, dereference: false, filter })` into an empty `dest`:
nothing is copied when the filter refuses the source itself. -/
def cpSync (filter : String → Bool) (src : String) (tree : Directory α) : Directory α :=
  if filter src then tree.copyEntries filter src else nil

/-- The filter that the three copies pass to `cpSync`. -/
def turnCopyFilter (base : String) (src : String) : Bool :=
  shouldExcludeFromTurnCopy src base.length

/-- The content of the snapshot made by `ensureBaselineSnapshot`. -/
def baselineSnapshot (cwd : String) (tree : Directory α) : Directory α :=
  cpSync (turnCopyFilter cwd) cwd tree

/-- The content of the workspace made by `runIsolatedTurn`. -/
def turnWorkspace (originalCwd : String) (tree : Directory α) : Directory α :=
  cpSync (turnCopyFilter originalCwd) originalCwd tree

/-- A file that a turn emitted, with its path relative to the workspace and, if it does not have
to be looked up, its contents. -/
structure OverlayFile (α : Type*) where
  path : List FileName
  content : Option α := none

/-- Put one emitted file into the workspace. -/
def overlayFile (baseline workspace : Directory α) (f : OverlayFile α) : Directory α :=
  match workspace.mkdirs f.path.dropLast with
  | none => workspace
  | some workspace =>
    match f.content <|> baseline.read? f.path with
    | none => workspace
    | some contents => (workspace.writeFile contents f.path).getD workspace

def overlay (baseline workspace : Directory α) (files : List (OverlayFile α)) : Directory α :=
  files.foldl (overlayFile baseline) workspace

/-- The content of the workspace made by `createIsolatedWorkspace`, from the directory `baseline`
at path `base`. -/
def isolatedWorkspace (base : String) (baseline : Directory α)
    (emittedFiles : List (OverlayFile α)) : Directory α :=
  let copy := cpSync (turnCopyFilter base) base baseline
  if emittedFiles ≠ [] then overlay baseline copy emittedFiles else copy

/-! ### What the copies contain -/

def isExcluded (n : FileName) : Bool := n.val ∈ turnCopyExcluded

/-- `copy` has exactly the files of `source` without an excluded segment on their path. -/
def CompleteCopy (source copy : Directory α) : Prop :=
  ∀ p, copy.read? p = if p.any isExcluded then none else source.read? p

/-- `copy` has the files of a complete copy of `source` with the emitted files laid over it. -/
def CompleteOverlay (source : Directory α) (files : List (OverlayFile α)) (copy : Directory α) :
    Prop :=
  ∀ p, copy.read? p = (overlay source (source.prune isExcluded) files).read? p

theorem completeCopy_prune (source : Directory α) :
    CompleteCopy source (source.prune isExcluded) := source.read?_prune isExcluded

theorem completeCopy_nil_iff {source : Directory α} :
    CompleteCopy source nil ↔ ∀ p, p.any isExcluded = false → source.read? p = none := by
  refine forall_congr' fun p => ?_
  rw [read?_nil]
  cases hp : p.any isExcluded with
  | true => exact iff_of_true rfl (by rintro ⟨⟩)
  | false => exact ⟨fun h _ => h.symm, fun h => (h rfl).symm⟩

theorem shouldExcludeFromTurnCopy_base (base : String) :
    shouldExcludeFromTurnCopy base base.length = false := by
  rw [shouldExcludeFromTurnCopy, Text.sliceFrom_of_length_le (Nat.le_succ _), if_pos rfl]

/-- The filter refuses the source directory itself, so nothing is copied. -/
theorem cpSync_turnCopyFilter (base : String) (tree : Directory α) :
    cpSync (turnCopyFilter base) base tree = nil := by
  rw [cpSync, turnCopyFilter, shouldExcludeFromTurnCopy_base, if_neg Bool.false_ne_true]

theorem isolatedWorkspace_eq (base : String) (tree : Directory α) (files : List (OverlayFile α)) :
    isolatedWorkspace base tree files = overlay tree nil files := by
  rw [isolatedWorkspace, cpSync_turnCopyFilter]
  split
  · rfl
  · next hf => rw [not_not.mp hf]; rfl

theorem workspaceCopies_complete_iff [Inhabited α] (cwd baselineDir turnDir : String)
    (tree : Directory α) :
    (CompleteCopy tree (baselineSnapshot cwd tree) ∧
        CompleteCopy tree (turnWorkspace baselineDir tree) ∧
        ∀ files, CompleteOverlay tree files (isolatedWorkspace turnDir tree files)) ↔
      ∀ n ∈ tree.names, isExcluded n = true := by
  rw [baselineSnapshot, turnWorkspace, cpSync_turnCopyFilter, cpSync_turnCopyFilter]
  simp only [CompleteOverlay, isolatedWorkspace_eq]
  rw [← prune_eq_nil_iff]
  constructor
  · rintro ⟨-, -, hoverlay⟩
    cases hp : tree.prune isExcluded with
    | nil => rfl
    | file n c rest =>
      have hmissing := hoverlay [] [n]
      rw [hp] at hmissing
      simp [overlay, read?] at hmissing
    | dir n children rest =>
      -- a complete copy has a directory here, on which the emitted file cannot be written
      have hwritten := hoverlay [{ path := [n], content := some default }] [n]
      rw [hp] at hwritten
      simp [overlay, overlayFile, mkdirs, writeFile, read?] at hwritten
  · intro hp
    have hcopy : CompleteCopy tree nil := hp ▸ completeCopy_prune tree
    exact ⟨hcopy, hcopy, fun files p => by rw [hp]⟩

theorem baselineSnapshot_incomplete :
    let a : FileName := ⟨"a.ts", by decide, by decide⟩
    let tree : Directory String := file a "export {}" nil
    (baselineSnapshot "/work" tree).read? [a] = none ∧ tree.read? [a] = some "export {}" ∧
      ¬CompleteCopy tree (baselineSnapshot "/work" tree) := by
  refine ⟨by decide, by decide, fun h => ?_⟩
  have ha := h [⟨"a.ts", by decide, by decide⟩]
  revert ha
  decide

/-! ### The negated filter -/

/-- The path of an entry below `base`. -/
def entryPath (base : String) (p : List FileName) : String := p.foldl joinPath base

theorem toList_entryPath (base : String) (p : List FileName) :
    (entryPath base p).toList = base.toList ++ p.flatMap fun n => '/' :: n.val.toList := by
  induction p generalizing base with
  | nil => simp [entryPath]
  | cons n p ih =>
    have := ih (joinPath base n)
    rw [entryPath] at this ⊢
    rw [List.foldl_cons, this]
    simp [joinPath]

theorem flatMap_slash (n : FileName) (p : List FileName) :
    ((n :: p).flatMap fun n => '/' :: n.val.toList) =
      '/' :: ['/'].intercalate ((n :: p).map (·.val.toList)) := by
  induction p generalizing n with
  | nil => simp
  | cons m p ih => rw [List.flatMap_cons, ih m]; simp

theorem split_rel (base : String) (n : FileName) (p : List FileName) :
    Text.split '/' (Text.sliceFrom (entryPath base (n :: p)) (base.length + 1)) =
      (n :: p).map (·.val) := by
  rw [Text.split, Text.sliceFrom, toList_entryPath, flatMap_slash, String.toList_ofList,
    ← String.length_toList, List.drop_append, List.drop_of_length_le (Nat.le_succ _),
    Nat.add_sub_cancel_left, List.nil_append, List.drop_succ_cons, List.drop_zero,
    List.splitOn_intercalate '/' _ (by simp)]
  · simp
  · intro l hl
    obtain ⟨m, -, rfl⟩ := List.mem_map.mp hl
    exact m.no_slash

theorem shouldExcludeFromTurnCopy_entryPath (base : String) (n : FileName) (p : List FileName) :
    shouldExcludeFromTurnCopy (entryPath base (n :: p)) base.length =
      (n :: p).any isExcluded := by
  have hsplit := split_rel base n p
  have hrel : Text.sliceFrom (entryPath base (n :: p)) (base.length + 1) ≠ "" := by
    intro h
    rw [h] at hsplit
    have hempty : [""] = (n :: p).map (·.val) := hsplit
    simp only [List.map_cons, List.cons.injEq] at hempty
    exact n.ne_empty hempty.1.symm
  have hany : ((n :: p).map (·.val)).any (· ∈ turnCopyExcluded) = (n :: p).any isExcluded :=
    List.any_map
  rw [shouldExcludeFromTurnCopy, if_neg hrel, hsplit]
  simp only [hany]
  cases hex : (n :: p).any isExcluded with
  | true => rfl
  | false =>
    simp only [Bool.false_eq_true, if_false]
    cases hlast : ((n :: p).map (·.val)).getLast? with
    | none => rfl
    | some last =>
      obtain ⟨m, hm, rfl⟩ := List.mem_map.mp (List.mem_of_getLast? hlast)
      have hm' : isExcluded m = false := Bool.eq_false_iff.mpr (List.any_eq_false.mp hex m hm)
      rw [isExcluded] at hm'
      simp only [hm', Bool.and_false]

/-- Were the result of `shouldExcludeFromTurnCopy` negated, each of the copies would be complete:
the offset at which the path is cut and the names it is compared with are right. -/
theorem cpSync_not_turnCopyFilter (base : String) (tree : Directory α) :
    cpSync (fun src => !turnCopyFilter base src) base tree = tree.prune isExcluded := by
  rw [cpSync, turnCopyFilter, shouldExcludeFromTurnCopy_base, Bool.not_false, if_pos rfl]
  refine copyEntries_eq_prune
    (fun src => ∃ p, entryPath base p = src ∧ p.any isExcluded = false) ?_ ?_ ⟨[], rfl, rfl⟩ tree
  · rintro _ n ⟨p, rfl, hp⟩
    have hpath : joinPath (entryPath base p) n = entryPath base (p ++ [n]) := by
      simp [entryPath]
    rw [hpath, turnCopyFilter]
    cases p with
    | nil => rw [List.nil_append, shouldExcludeFromTurnCopy_entryPath]; simp
    | cons m p =>
      rw [List.cons_append, shouldExcludeFromTurnCopy_entryPath, ← List.cons_append,
        List.any_append, hp]
      simp
  · rintro _ n ⟨p, rfl, hp⟩ hn
    exact ⟨p ++ [n], by simp [entryPath], by rw [List.any_append, hp]; simp [hn]⟩

end KirkForge
