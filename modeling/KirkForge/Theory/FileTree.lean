import Mathlib.Data.List.Basic

/-!
# Directory trees

A directory is the list of its entries, in the order in which they are read. `copyEntries` is a
recursive copy that asks a filter about the path of every entry and leaves out what the filter
refuses, a directory with everything below it; `prune` leaves out the entries with certain names.
`mkdirs` and `writeFile` fail where the file system would. `files` lists the files below a directory
in the order of a walk that goes down into each directory at its place.
-/

namespace KirkForge

/-- A name that can stand between two slashes. -/
structure FileName where
  val : String
  ne_empty : val ≠ ""
  no_slash : '/' ∉ val.toList
  deriving DecidableEq

/-- The content of a directory. -/
inductive Directory (α : Type*)
  | nil
  | file (name : FileName) (contents : α) (rest : Directory α)
  | dir (name : FileName) (children rest : Directory α)
  deriving DecidableEq

namespace Directory

variable {α : Type*}

/-- The contents of the file at a path. -/
def read? : Directory α → List FileName → Option α
  | nil, _ => none
  | _, [] => none
  | file n c rest, m :: p =>
    if n = m then (if p = [] then some c else none) else rest.read? (m :: p)
  | dir n children rest, m :: p => if n = m then children.read? p else rest.read? (m :: p)

/-- The names of the top-level entries. -/
def names : Directory α → List FileName
  | nil => []
  | file n _ rest | dir n _ rest => n :: rest.names

def joinPath (dir : String) (name : FileName) : String := dir ++ "/" ++ name.val

/-- Copy the entries of the directory at path `src` that pass the filter. -/
def copyEntries (filter : String → Bool) (src : String) : Directory α → Directory α
  | nil => nil
  | file n c rest =>
    if filter (joinPath src n) then file n c (rest.copyEntries filter src)
    else rest.copyEntries filter src
  | dir n children rest =>
    if filter (joinPath src n) then
      dir n (children.copyEntries filter (joinPath src n)) (rest.copyEntries filter src)
    else rest.copyEntries filter src

/-- Leave out the entries whose name is excluded, with everything below them. -/
def prune (excluded : FileName → Bool) : Directory α → Directory α
  | nil => nil
  | file n c rest => if excluded n then rest.prune excluded else file n c (rest.prune excluded)
  | dir n children rest =>
    if excluded n then rest.prune excluded
    else dir n (children.prune excluded) (rest.prune excluded)

/-- The files by the names that lead to them. -/
def files : Directory α → List (List FileName × α)
  | nil => []
  | file n c rest => ([n], c) :: rest.files
  | dir n children rest => children.files.map (fun f => (n :: f.1, f.2)) ++ rest.files

/-- The names of all entries, at any depth. -/
def EveryName (p : FileName → Prop) : Directory α → Prop
  | nil => True
  | file n _ rest => p n ∧ rest.EveryName p
  | dir n children rest => p n ∧ children.EveryName p ∧ rest.EveryName p

/-- Nested directories down a path, with `leaf` inside the last one. -/
def chain (leaf : Directory α) : List FileName → Directory α
  | [] => leaf
  | n :: p => dir n (chain leaf p) nil

/-- Create the directories down a path, unless a file stands in the way. -/
def mkdirs : Directory α → List FileName → Option (Directory α)
  | d, [] => some d
  | nil, p => some (chain nil p)
  | file n c rest, m :: p => if n = m then none else (rest.mkdirs (m :: p)).map (file n c)
  | dir n children rest, m :: p =>
    if n = m then (children.mkdirs p).map fun ch => dir n ch rest
    else (rest.mkdirs (m :: p)).map (dir n children)

/-- Create or overwrite the file at a path, in a directory that exists. -/
def writeFile (contents : α) : Directory α → List FileName → Option (Directory α)
  | _, [] => none
  | nil, m :: p => if p = [] then some (file m contents nil) else none
  | file n c rest, m :: p =>
    if n = m then (if p = [] then some (file n contents rest) else none)
    else (rest.writeFile contents (m :: p)).map (file n c)
  | dir n children rest, m :: p =>
    if n = m then (children.writeFile contents p).map fun ch => dir n ch rest
    else (rest.writeFile contents (m :: p)).map (dir n children)

@[simp] theorem read?_nil (p : List FileName) : (nil : Directory α).read? p = none := by
  cases p <;> rfl

@[simp] theorem read?_root (d : Directory α) : d.read? [] = none := by
  cases d <;> rfl

theorem read?_prune (excluded : FileName → Bool) (d : Directory α) (p : List FileName) :
    (d.prune excluded).read? p = if p.any excluded then none else d.read? p := by
  induction d generalizing p with
  | nil => simp [prune]
  | file n c rest ih =>
    cases p with
    | nil => simp
    | cons m p =>
      simp only [prune]
      split
      · next hn =>
        rw [ih]
        by_cases hnm : n = m
        · simp [← hnm, hn]
        · simp [read?, hnm]
      · next hn =>
        by_cases hnm : n = m
        · subst hnm
          cases p <;> simp [read?, hn]
        · simp [read?, hnm, ih]
  | dir n children rest ihc ih =>
    cases p with
    | nil => simp
    | cons m p =>
      simp only [prune]
      split
      · next hn =>
        rw [ih]
        by_cases hnm : n = m
        · simp [← hnm, hn]
        · simp [read?, hnm]
      · next hn =>
        by_cases hnm : n = m
        · subst hnm
          simp [read?, hn, ihc]
        · simp [read?, hnm, ih]

theorem prune_eq_nil_iff {excluded : FileName → Bool} {d : Directory α} :
    d.prune excluded = nil ↔ ∀ n ∈ d.names, excluded n = true := by
  induction d with
  | nil => simp [prune, names]
  | file n c rest ih | dir n children rest _ ih =>
    simp only [prune, names, List.forall_mem_cons]
    split
    · next hn => rw [ih, and_iff_right hn]
    · next hn => exact iff_of_false nofun fun h => hn h.1

/-- A filter that refuses exactly the paths with an excluded last name prunes the copy. -/
theorem copyEntries_eq_prune {filter : String → Bool} {excluded : FileName → Bool}
    (P : String → Prop) (hfilter : ∀ src n, P src → filter (joinPath src n) = !excluded n)
    (hP : ∀ src n, P src → excluded n = false → P (joinPath src n)) {src : String} (hsrc : P src)
    (d : Directory α) : d.copyEntries filter src = d.prune excluded := by
  induction d generalizing src with
  | nil => rfl
  | file n c rest ih =>
    simp only [copyEntries, prune, hfilter src n hsrc, ih hsrc]
    cases excluded n <;> rfl
  | dir n children rest ihc ih =>
    simp only [copyEntries, prune, hfilter src n hsrc, ih hsrc]
    cases hn : excluded n with
    | true => rfl
    | false => rw [ihc (hP src n hsrc hn)]; rfl

end Directory

end KirkForge
