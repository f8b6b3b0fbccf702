import Mathlib.Data.List.Infix

/-!
# File systems

A file system without links: a path is the list of its names from the root, and a node is a
directory or a file with an identity and its contents. The structure carries what every operation
keeps: the root is a directory, whatever exists lies in a directory, and the identities given out
so far are below a counter. `mkdirs`, `create` and `rename` fail where the system call does. An
`atomicWrite` is the three of them in a row, and `file?_atomicWrite` is all that it changes.
-/

namespace KirkForge

inductive FileNode (α : Type*)
  | dir
  | file (id : Nat) (contents : α)

structure FileSystem (ν α : Type*) where
  node : List ν → Option (FileNode α)
  nextId : Nat
  root_dir : node [] = some .dir
  parent_dir : ∀ p name, node (p ++ [name]) ≠ none → node p = some .dir
  id_lt : ∀ p id contents, node p = some (.file id contents) → id < nextId

namespace FileSystem

variable {ν α : Type*}

def isDir (fs : FileSystem ν α) (p : List ν) : Bool :=
  match fs.node p with
  | some .dir => true
  | _ => false

/-- The file at a path, with its identity. -/
def file? (fs : FileSystem ν α) (p : List ν) : Option (Nat × α) :=
  match fs.node p with
  | some (.file id contents) => some (id, contents)
  | _ => none

variable {fs fs' : FileSystem ν α} {p q dir : List ν} {name tmp : ν} {contents : α}

theorem isDir_iff : fs.isDir p = true ↔ fs.node p = some .dir := by
  unfold isDir
  split
  · next h => exact iff_of_true rfl h
  · next h => exact iff_of_false nofun h

theorem file?_eq_some {id : Nat} :
    fs.file? p = some (id, contents) ↔ fs.node p = some (.file id contents) := by
  unfold file?
  split
  · next h => simp [h]
  · next h => exact iff_of_false nofun (h id contents)

theorem file?_of_node_eq_none (h : fs.node p = none) : fs.file? p = none := by
  rw [file?, h]

/-- A file that exists has an identity below the counter. -/
theorem id_lt_of_file? {f : Nat × α} (h : fs.file? p = some f) : f.1 < fs.nextId :=
  fs.id_lt p f.1 f.2 (file?_eq_some.mp h)

variable [DecidableEq ν]

/-- Create the directories down a path, unless a file stands in the way. -/
def mkdirs (fs : FileSystem ν α) (p : List ν) : Option (FileSystem ν α) :=
  if p.inits.all fun q => (fs.file? q).isNone then
    some {
      node := fun q => if q <+: p then some .dir else fs.node q
      nextId := fs.nextId
      root_dir := if_pos List.nil_prefix
      parent_dir := by
        intro q name hq
        split
        · rfl
        · next hqp =>
          have hnot : ¬q ++ [name] <+: p := fun h => hqp ((List.prefix_append q [name]).trans h)
          rw [if_neg hnot] at hq
          exact fs.parent_dir q name hq
      id_lt := by
        intro q id contents hq
        split at hq
        · exact nomatch hq
        · exact fs.id_lt q id contents hq }
  else none

/-- Put a file into a directory, where no directory has its name. -/
def put (fs : FileSystem ν α) (dir : List ν) (name : ν) (id : Nat) (contents : α)
    (hdir : fs.isDir dir = true) (hname : fs.isDir (dir ++ [name]) = false) :
    FileSystem ν α where
  node q := if q = dir ++ [name] then some (.file id contents) else fs.node q
  nextId := max (id + 1) fs.nextId
  root_dir := by rw [if_neg (by simp), fs.root_dir]
  parent_dir := by
    intro q n hq
    by_cases hqn : q ++ [n] = dir ++ [name]
    · obtain ⟨rfl, -⟩ := List.append_inj' hqn rfl
      rw [if_neg (by simp), isDir_iff.mp hdir]
    · rw [if_neg hqn] at hq
      have hqdir := fs.parent_dir q n hq
      have hne : q ≠ dir ++ [name] := by
        rintro rfl
        rw [isDir_iff.mpr hqdir] at hname
        exact nomatch hname
      rw [if_neg hne, hqdir]
  id_lt := by
    intro q i c hq
    split at hq
    · obtain ⟨rfl, -⟩ := FileNode.file.inj (Option.some.inj hq)
      exact Nat.lt_of_lt_of_le (Nat.lt_succ_self _) (Nat.le_max_left ..)
    · exact Nat.lt_of_lt_of_le (fs.id_lt q i c hq) (Nat.le_max_right ..)

/-- Remove what is at a path, unless it is a directory. -/
def unlink (fs : FileSystem ν α) (p : List ν) : FileSystem ν α where
  node q := if q = p ∧ fs.isDir p = false then none else fs.node q
  nextId := fs.nextId
  root_dir := by
    have hroot : ¬([] = p ∧ fs.isDir p = false) := by
      rintro ⟨rfl, h⟩
      rw [isDir_iff.mpr fs.root_dir] at h
      exact nomatch h
    rw [if_neg hroot, fs.root_dir]
  parent_dir := by
    intro q n hq
    split at hq
    · exact absurd rfl hq
    · have hqdir := fs.parent_dir q n hq
      have hnot : ¬(q = p ∧ fs.isDir p = false) := by
        rintro ⟨rfl, h⟩
        rw [isDir_iff.mpr hqdir] at h
        exact nomatch h
      rw [if_neg hnot, hqdir]
  id_lt := by
    intro q i c hq
    split at hq
    · exact nomatch hq
    · exact fs.id_lt q i c hq

/-- Open a file for writing, cut it off and write: a file that is there keeps its identity. -/
def create (fs : FileSystem ν α) (dir : List ν) (name : ν) (contents : α) :
    Option (FileSystem ν α) :=
  if h : fs.isDir dir = true ∧ fs.isDir (dir ++ [name]) = false then
    let id := ((fs.file? (dir ++ [name])).map Prod.fst).getD fs.nextId
    some (fs.put dir name id contents h.1 h.2)
  else none

/-- Move a file, over the file at its new path if there is one. -/
def rename (fs : FileSystem ν α) (p dir : List ν) (name : ν) : Option (FileSystem ν α) :=
  match fs.file? p with
  | some (id, contents) =>
    if h : (fs.unlink p).isDir dir = true ∧ (fs.unlink p).isDir (dir ++ [name]) = false then
      some ((fs.unlink p).put dir name id contents h.1 h.2)
    else none
  | none => none

/-- Write to a temporary file next to the path and move it there. -/
def atomicWrite (fs : FileSystem ν α) (dir : List ν) (name tmp : ν) (contents : α) :
    Option (FileSystem ν α) := do
  let fs ← fs.mkdirs dir
  let fs ← fs.create dir tmp contents
  fs.rename (dir ++ [tmp]) dir name

/-! ### What the operations change -/

theorem mkdirs_eq_some (h : fs.mkdirs p = some fs') :
    (∀ q, q <+: p → fs.file? q = none) ∧ fs'.nextId = fs.nextId ∧
      ∀ q, fs'.node q = if q <+: p then some .dir else fs.node q := by
  unfold mkdirs at h
  split at h
  · next hall =>
    obtain rfl := Option.some.inj h
    refine ⟨fun q hq => ?_, rfl, fun q => rfl⟩
    exact Option.isNone_iff_eq_none.mp (List.all_eq_true.mp hall q ((List.mem_inits q p).mpr hq))
  · exact nomatch h

theorem exists_mkdirs (h : ∀ q, q <+: p → fs.file? q = none) : ∃ fs', fs.mkdirs p = some fs' := by
  refine ⟨_, if_pos (List.all_eq_true.mpr fun q hq => ?_)⟩
  exact Option.isNone_iff_eq_none.mpr (h q ((List.mem_inits q p).mp hq))

/-- Making directories makes and changes no file. -/
theorem file?_mkdirs (h : fs.mkdirs p = some fs') (q : List ν) : fs'.file? q = fs.file? q := by
  obtain ⟨hnone, -, hnode⟩ := mkdirs_eq_some h
  by_cases hq : q <+: p
  · rw [hnone q hq, file?, hnode, if_pos hq]
  · rw [file?, file?, hnode, if_neg hq]

@[simp] theorem node_put (hdir : fs.isDir dir = true) (hname : fs.isDir (dir ++ [name]) = false)
    (id : Nat) (q : List ν) : (fs.put dir name id contents hdir hname).node q =
      if q = dir ++ [name] then some (.file id contents) else fs.node q := rfl

theorem file?_put (hdir : fs.isDir dir = true) (hname : fs.isDir (dir ++ [name]) = false)
    (id : Nat) (q : List ν) : (fs.put dir name id contents hdir hname).file? q =
      if q = dir ++ [name] then some (id, contents) else fs.file? q := by
  by_cases hq : q = dir ++ [name]
  · rw [if_pos hq, file?_eq_some, node_put, if_pos hq]
  · rw [if_neg hq, file?, file?, node_put, if_neg hq]

theorem file?_unlink (p q : List ν) :
    (fs.unlink p).file? q = if q = p then none else fs.file? q := by
  unfold file? unlink
  by_cases hq : q = p
  · subst hq
    by_cases hdir : fs.isDir q = false
    · simp [hdir]
    · rw [Bool.not_eq_false] at hdir
      simp [hdir, isDir_iff.mp hdir]
  · simp [hq]

theorem isDir_unlink (p q : List ν) : (fs.unlink p).isDir q = fs.isDir q := by
  have hnode : (fs.unlink p).node q = if q = p ∧ fs.isDir p = false then none else fs.node q := rfl
  by_cases hq : q = p ∧ fs.isDir p = false
  · rw [isDir, hnode, if_pos hq, hq.1, hq.2]
  · rw [isDir, isDir, hnode, if_neg hq]

/-- What a write to a temporary file and a move change: the file at the path, which is a new one. -/
theorem file?_atomicWrite (htmp : fs.node (dir ++ [tmp]) = none)
    (h : fs.atomicWrite dir name tmp contents = some fs') :
    fs'.nextId = fs.nextId + 1 ∧ ∀ q, fs'.file? q =
      if q = dir ++ [name] then some (fs.nextId, contents) else fs.file? q := by
  obtain ⟨fs₁, hmkdirs, h⟩ := Option.bind_eq_some_iff.mp h
  obtain ⟨fs₂, hcreate, hrename⟩ := Option.bind_eq_some_iff.mp h
  obtain ⟨-, hnext, hnode⟩ := mkdirs_eq_some hmkdirs
  have hnew : fs₁.file? (dir ++ [tmp]) = none := by
    rw [file?_mkdirs hmkdirs, file?_of_node_eq_none htmp]
  unfold create at hcreate
  split at hcreate
  · next hdir =>
    obtain rfl := Option.some.inj hcreate
    simp only [hnew, Option.map_none, Option.getD_none] at hrename
    unfold rename at hrename
    rw [file?_put, if_pos rfl] at hrename
    simp only at hrename
    split at hrename
    · obtain rfl := Option.some.inj hrename
      refine ⟨?_, fun q => ?_⟩
      · simp only [put, unlink, hnext]
        omega
      · rw [file?_put, file?_unlink, file?_put, hnext, file?_mkdirs hmkdirs]
        by_cases hq : q = dir ++ [name]
        · rw [if_pos hq, if_pos hq]
        · rw [if_neg hq, if_neg hq]
          by_cases hqt : q = dir ++ [tmp]
          · rw [if_pos hqt, hqt, file?_of_node_eq_none htmp]
          · rw [if_neg hqt, if_neg hqt]
    · exact nomatch hrename
  · exact nomatch hcreate

theorem isDir_put (hdir : fs.isDir dir = true) (hname : fs.isDir (dir ++ [name]) = false)
    (id : Nat) (q : List ν) :
    (fs.put dir name id contents hdir hname).isDir q = fs.isDir q := by
  by_cases hq : q = dir ++ [name]
  · rw [hq, hname, isDir, node_put, if_pos rfl]
  · rw [isDir, isDir, node_put, if_neg hq]

/-- What a write changes: the file that it opens. -/
theorem create_eq_some (h : fs.create dir name contents = some fs') : fs.isDir dir = true ∧
    ∃ id, (∀ q, fs'.file? q = if q = dir ++ [name] then some (id, contents) else fs.file? q) ∧
      ∀ q, fs'.isDir q = fs.isDir q := by
  unfold create at h
  split at h
  · next hdir =>
    obtain rfl := Option.some.inj h
    exact ⟨hdir.1, _, file?_put hdir.1 hdir.2 _, isDir_put hdir.1 hdir.2 _⟩
  · cases h

theorem exists_create (hdir : fs.isDir dir = true) (hname : fs.isDir (dir ++ [name]) = false) :
    ∃ fs', fs.create dir name contents = some fs' ∧ (∃ f, fs'.file? (dir ++ [name]) = some f) ∧
      ∀ q, fs'.isDir q = fs.isDir q := by
  refine ⟨_, dif_pos ⟨hdir, hname⟩, ?_, fun q => isDir_put hdir hname _ q⟩
  exact ⟨_, (file?_put hdir hname _ _).trans (if_pos rfl)⟩

theorem exists_rename {f : Nat × α} (hfile : fs.file? p = some f) (hdir : fs.isDir dir = true)
    (hname : fs.isDir (dir ++ [name]) = false) : ∃ fs', fs.rename p dir name = some fs' := by
  unfold rename
  rw [hfile]
  exact ⟨_, dif_pos ⟨by rw [isDir_unlink, hdir], by rw [isDir_unlink, hname]⟩⟩

/-- The write goes through where no file stands in the way and no directory has the name. -/
theorem exists_atomicWrite (hdirs : ∀ q, q <+: dir → fs.file? q = none)
    (htmp : fs.node (dir ++ [tmp]) = none) (hname : fs.isDir (dir ++ [name]) = false) :
    ∃ fs', fs.atomicWrite dir name tmp contents = some fs' := by
  obtain ⟨fs₁, hmkdirs⟩ := exists_mkdirs hdirs
  obtain ⟨-, -, hnode⟩ := mkdirs_eq_some hmkdirs
  have hbelow (n : ν) : ¬dir ++ [n] <+: dir := fun h => by
    have hlen := h.length_le
    rw [List.length_append, List.length_singleton] at hlen
    omega
  have hdir : fs₁.isDir dir = true := isDir_iff.mpr (by rw [hnode, if_pos List.prefix_rfl])
  have hnew : fs₁.isDir (dir ++ [tmp]) = false := by
    rw [isDir, hnode, if_neg (hbelow tmp), htmp]
  have hold : fs₁.isDir (dir ++ [name]) = false := by
    rw [isDir, hnode, if_neg (hbelow name), ← isDir, hname]
  obtain ⟨fs₂, hcreate, ⟨f, hfile⟩, hisDir⟩ : ∃ fs₂, fs₁.create dir tmp contents = some fs₂ ∧
      (∃ f, fs₂.file? (dir ++ [tmp]) = some f) ∧ ∀ q, fs₂.isDir q = fs₁.isDir q :=
    exists_create hdir hnew
  obtain ⟨fs₃, hrename⟩ := exists_rename hfile ((hisDir dir).trans hdir) ((hisDir _).trans hold)
  exact ⟨fs₃, Option.bind_eq_some_iff.mpr ⟨fs₁, hmkdirs, Option.bind_eq_some_iff.mpr
    ⟨fs₂, hcreate, hrename⟩⟩⟩

/-! ### Only directories -/

/-- The file system that has only the directories down a path. -/
def onlyDirs (p : List ν) : FileSystem ν α where
  node q := if q <+: p then some .dir else none
  nextId := 0
  root_dir := if_pos List.nil_prefix
  parent_dir := by
    intro q name hq
    split at hq
    · next h => exact if_pos ((List.prefix_append q [name]).trans h)
    · exact absurd rfl hq
  id_lt := by
    intro q id contents hq
    split at hq <;> exact nomatch hq

theorem file?_onlyDirs (p q : List ν) : (onlyDirs p : FileSystem ν α).file? q = none := by
  have hnode : (onlyDirs p : FileSystem ν α).node q = if q <+: p then some .dir else none := rfl
  by_cases hq : q <+: p
  · rw [file?, hnode, if_pos hq]
  · rw [file?, hnode, if_neg hq]

end FileSystem

end KirkForge
