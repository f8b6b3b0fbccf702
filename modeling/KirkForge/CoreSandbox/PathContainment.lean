import KirkForge.CoreSandbox.ConstraintMerging
import KirkForge.CoreSandbox.Constraints
import KirkForge.Theory.JoinPath

/-!
# Containment of sandbox paths

The check for paths compares normalized texts. What it allows lies in an allowed root, but it does
not know a root whose text ends in a slash from what is below it, and takes two dots in a name for
the parent directory (`path_checks_decide_iff`).
-/

namespace KirkForge

open KirkForge.Path AbsPath

variable {roots : List String} {allowed path : String}

def IsAbsolute (path : String) : Prop := path.toList.head? = some '/'

/-- The path is an allowed root or below one, segment by segment. -/
def Contained (roots : List String) (path : String) : Prop :=
  ∃ allowed ∈ roots, (root.resolve allowed).Contains (root.resolve path)

/-- The two texts are the same, or neither the end of the root nor a pair of dots is in the way. -/
def Recognized (allowed path : String) : Prop :=
  normalize path = normalize allowed ∨
    (normalize allowed).toList.getLast? ≠ some '/' ∧ Text.includes (normalize path) ".." = false

theorem isPathAllowed_iff_exists : isPathAllowed path roots = true ↔
    ∃ allowed ∈ roots, normalize path = normalize allowed ∨
      (normalize allowed).toList ++ ['/'] <+: (normalize path).toList ∧
        Text.includes (normalize path) ".." = false := by
  rw [isPathAllowed]
  split
  · next hnil => simp [List.length_eq_zero_iff.mp hnil]
  · simp [Text.startsWith]

/-- A root that admits the path contains it, and a root that contains it admits it if it is
recognized. -/
theorem admits_iff (hallowed : IsAbsolute allowed) (hpath : IsAbsolute path) :
    (normalize path = normalize allowed ∨
      (normalize allowed).toList ++ ['/'] <+: (normalize path).toList ∧
        Text.includes (normalize path) ".." = false) ↔
      (root.resolve allowed).Contains (root.resolve path) ∧ Recognized allowed path := by
  rw [Recognized]
  generalize hdots : Text.includes (normalize path) ".." = dots
  obtain ⟨tr, hr⟩ := exists_normalize_eq hallowed
  obtain ⟨tp, hp⟩ := exists_normalize_eq hpath
  generalize root.resolve allowed = r at hr ⊢
  generalize root.resolve path = p at hp ⊢
  have hslash (q : AbsPath) (t : Bool) : ∀ s ∈ q.textParts t, '/' ∉ s := slash_notMem_textParts
  rw [hr, hp, String.ofList_inj, String.toList_ofList, String.toList_ofList,
    slashed_inj (hslash p tp) (hslash r tr), slashed_concat_prefix_iff (hslash r tr) (hslash p tp),
    Ne, getLast?_slashed (hslash r tr) textParts_ne_nil]
  constructor
  · rintro (heq | ⟨⟨more, hne, heq⟩, hdots⟩)
    · exact ⟨contains_of_textParts (by rw [heq]), .inl heq⟩
    · refine ⟨contains_of_textParts ⟨more, heq.symm⟩, .inr ⟨fun hlast => ?_, hdots⟩⟩
      exact nil_notMem_of_textParts heq hne (List.mem_of_getLast? hlast)
  · rintro ⟨hcontains, heq | ⟨hlast, hdots⟩⟩
    · exact .inl heq
    · obtain ⟨more, hmore⟩ := textParts_of_contains hlast hcontains tp
      by_cases hnil : more = []
      · exact .inl (by rw [← hmore, hnil, List.append_nil])
      · exact .inr ⟨⟨more, hnil, hmore.symm⟩, hdots⟩

theorem isPathAllowed_iff (hroots : ∀ allowed ∈ roots, IsAbsolute allowed)
    (hpath : IsAbsolute path) : isPathAllowed path roots = true ↔
      ∃ allowed ∈ roots, (root.resolve allowed).Contains (root.resolve path) ∧
        Recognized allowed path := by
  rw [isPathAllowed_iff_exists]
  exact exists_congr fun allowed => and_congr_right fun h => admits_iff (hroots allowed h) hpath

/-- A root that contains the path recognizes it, unless no root contains it. -/
def Decided (roots : List String) (path : String) : Prop :=
  Contained roots path → ∃ allowed ∈ roots, (root.resolve allowed).Contains (root.resolve path) ∧
    Recognized allowed path

theorem isPathAllowed_decides_iff (hroots : ∀ allowed ∈ roots, IsAbsolute allowed)
    (hpath : IsAbsolute path) :
    (isPathAllowed path roots = true ↔ Contained roots path) ↔ Decided roots path := by
  rw [isPathAllowed_iff hroots hpath, Decided]
  refine ⟨Iff.mpr, fun h => ⟨?_, h⟩⟩
  rintro ⟨allowed, hmem, hcontains, -⟩
  exact ⟨allowed, hmem, hcontains⟩

/-- The checks decide containment exactly where a containing root recognizes the path. -/
theorem path_checks_decide_iff (constraints : RequiredConstraints) (path : String)
    (hread : ∀ allowed ∈ constraints.allowedReadPaths, IsAbsolute allowed)
    (hwrite : ∀ allowed ∈ constraints.allowedWritePaths, IsAbsolute allowed)
    (hpath : IsAbsolute path) :
    ((isReadPathAllowed path constraints = true ↔ Contained constraints.allowedReadPaths path) ↔
        Decided constraints.allowedReadPaths path) ∧
      ((isWritePathAllowed path constraints = true ↔
          Contained constraints.allowedWritePaths path) ↔
        Decided constraints.allowedWritePaths path) :=
  ⟨isPathAllowed_decides_iff hread hpath, isPathAllowed_decides_iff hwrite hpath⟩

instance : Decidable (Contained roots path) :=
  decidable_of_iff (roots.any fun allowed =>
    (root.resolve allowed).segments.isPrefixOf (root.resolve path).segments) (by
      simp [Contained, AbsPath.Contains])

/-- Everything lies below the file system root, which only admits itself. -/
theorem path_checks_decide_iff_of_root :
    let constraints := { DEFAULT_CONSTRAINTS with
      allowedReadPaths := ["/work"], allowedWritePaths := ["/"] }
    (isReadPathAllowed "/work/a.ts" constraints = true ↔ Contained ["/work"] "/work/a.ts") ∧
      ¬Decided ["/"] "/work/a.ts" := by
  intro constraints
  have hread : ∀ allowed ∈ constraints.allowedReadPaths, IsAbsolute allowed :=
    List.forall_mem_singleton.mpr rfl
  have hwrite : ∀ allowed ∈ constraints.allowedWritePaths, IsAbsolute allowed :=
    List.forall_mem_singleton.mpr rfl
  obtain ⟨hreads, hwrites⟩ := path_checks_decide_iff constraints "/work/a.ts" hread hwrite rfl
  refine ⟨hreads.mpr fun _ => ⟨"/work", List.mem_singleton_self _, ?_, .inr ?_⟩, ?_⟩
  · exact ⟨["a.ts".toList], by decide⟩
  · decide
  · rw [← hwrites]
    decide

/-- The file system root, a slash at the end and two dots in a name are each denied. -/
theorem contained_paths_denied :
    ¬(isReadPathAllowed "/etc/hosts" { DEFAULT_CONSTRAINTS with allowedReadPaths := ["/"] } = true ↔
        Contained ["/"] "/etc/hosts") ∧
      ¬(isReadPathAllowed "/work/a" { DEFAULT_CONSTRAINTS with allowedReadPaths := ["/work/"] } =
        true ↔ Contained ["/work/"] "/work/a") ∧
      ¬(isWritePathAllowed "/work/a..b" { DEFAULT_CONSTRAINTS with allowedWritePaths := ["/work"] } =
        true ↔ Contained ["/work"] "/work/a..b") := by
  decide

end KirkForge

/-!
## Arguments that lead out of a sandbox

`runSandboxed` looks at the arguments that begin like a path, and does not start if one of them is
not allowed. What the check allows lies below an allowed root, wherever the process runs
(`contains_of_isPathAllowed`). An argument that begins in another way is not looked at and may lead
anywhere, so that a process which is started sees an argument that escapes exactly if one is
overlooked (`escapes_stopped_iff`).
-/

namespace KirkForge

open KirkForge.Path AbsPath

variable {cwd : AbsPath} {c : RequiredConstraints} {args roots : List String} {arg : String}

/-- In the working directory `cwd` the argument denotes a path outside all allowed roots. -/
def Escapes (cwd : AbsPath) (c : RequiredConstraints) (arg : String) : Prop :=
  ∀ allowed ∈ c.allowedReadPaths ++ c.allowedWritePaths,
    ¬(cwd.resolve allowed).Contains (cwd.resolve arg)

/-- The condition under which an argument is looked at. -/
def looksLikePath (arg : String) : Bool :=
  Text.startsWith arg "/" || Text.startsWith arg "./" || Text.startsWith arg ".."

/-- The check of an argument that is looked at. -/
def isArgAllowed (arg : String) (c : RequiredConstraints) : Bool :=
  isReadPathAllowed arg c || isWritePathAllowed arg c

/-! ### What the check allows -/

/-- A path below an allowed one, by their texts, is below it in any directory. -/
theorem contains_of_slashed {allowed path : String}
    (h : (normalize allowed).toList ++ ['/'] <+: (normalize path).toList)
    (hdots : Text.includes (normalize path) ".." = false) :
    (cwd.resolve allowed).Contains (cwd.resolve path) := by
  obtain ⟨rest, hrest⟩ := h
  have hpath : normalize path = normalize allowed ++ "/" ++ String.ofList rest := by
    rw [← String.toList_inj, ← hrest]
    simp
  have hplain : ['.', '.'] ∉ (String.ofList rest).toList.splitOn '/' := by
    intro hmem
    have hinfix : ['.', '.'] <:+: (normalize path).toList := by
      rw [String.toList_ofList] at hmem
      exact (Lists.infix_of_mem_splitOn hmem).trans (hrest ▸ (List.suffix_append _ _).isInfix)
    exact absurd (decide_eq_true hinfix) (Bool.eq_false_iff.mp hdots)
  have hfollow : (cwd.resolve path).segments =
      (cwd.resolve allowed).follow (String.ofList rest) := by
    rw [← resolve_normalize cwd path, hpath, segments_resolve_concat cwd _ (normalize_ne_empty _),
      resolve_normalize]
  rw [Contains, hfollow]
  exact prefix_follow hplain _

theorem contains_of_isPathAllowed (cwd : AbsPath) (h : isPathAllowed arg roots = true) :
    ∃ allowed ∈ roots, (cwd.resolve allowed).Contains (cwd.resolve arg) := by
  obtain ⟨allowed, hmem, heq | ⟨hslashed, hdots⟩⟩ := isPathAllowed_iff_exists.mp h
  · refine ⟨allowed, hmem, ?_⟩
    rw [← resolve_normalize cwd arg, heq, resolve_normalize]
    exact List.prefix_rfl
  · exact ⟨allowed, hmem, contains_of_slashed hslashed hdots⟩

theorem Escapes.not_allowed (h : Escapes cwd c arg) : isArgAllowed arg c = false := by
  rw [isArgAllowed, Bool.or_eq_false_iff, Bool.eq_false_iff, Bool.eq_false_iff]
  constructor
  · intro hread
    obtain ⟨allowed, hmem, hcontains⟩ := contains_of_isPathAllowed cwd hread
    exact h allowed (List.mem_append_left _ hmem) hcontains
  · intro hwrite
    obtain ⟨allowed, hmem, hcontains⟩ := contains_of_isPathAllowed cwd hwrite
    exact h allowed (List.mem_append_right _ hmem) hcontains

/-! ### What is not looked at -/

theorem scan_eq_nil_iff : scanArgsForPathViolations args c = [] ↔
    ∀ arg ∈ args, looksLikePath arg = true → isArgAllowed arg c = true := by
  rw [scanArgsForPathViolations, List.filterMap_eq_nil_iff]
  refine forall₂_congr fun arg _ => ?_
  rw [← looksLikePath, isArgAllowed]
  cases looksLikePath arg <;> cases isReadPathAllowed arg c <;>
    cases isWritePathAllowed arg c <;> simp

/-- An argument that is not looked at escapes, and those that are looked at are allowed. -/
structure Overlooked (cwd : AbsPath) (c : RequiredConstraints) (args : List String) : Prop where
  escaping : ∃ arg ∈ args, looksLikePath arg = false ∧ Escapes cwd c arg
  allowed : ∀ arg ∈ args, looksLikePath arg = true → isArgAllowed arg c = true

/-- The scan finds nothing in arguments that escape exactly if one is overlooked. -/
theorem overlooked_iff : Overlooked cwd c args ↔
    (∃ arg ∈ args, Escapes cwd c arg) ∧ scanArgsForPathViolations args c = [] := by
  rw [scan_eq_nil_iff]
  constructor
  · rintro ⟨⟨arg, hmem, -, hescapes⟩, hallowed⟩
    exact ⟨⟨arg, hmem, hescapes⟩, hallowed⟩
  · rintro ⟨⟨arg, hmem, hescapes⟩, hallowed⟩
    refine ⟨⟨arg, hmem, ?_, hescapes⟩, hallowed⟩
    refine Bool.eq_false_iff.mpr fun hlooks => ?_
    exact nomatch hescapes.not_allowed.symm.trans (hallowed arg hmem hlooks)

/-! ### The run -/

variable {host : RunnerHost} {parent : ProcessEnv} {config : SandboxRunConfig}

/-- The constraints of a run, with the defaults for what is left out. -/
abbrev SandboxRunConfig.required (config : SandboxRunConfig) : RequiredConstraints :=
  withDefaults config.constraints

theorem spawns_iff (host : RunnerHost) :
    (∃ spawn, runSandboxed host parent config = .ok spawn) ↔
    Admitted parent config config.required ∧ ArgsPass config config.required := by
  constructor
  · rintro ⟨spawn, h⟩
    obtain ⟨⟨c, h, hargs⟩, -⟩ := runSandboxed_eq_ok_iff.mp h
    obtain ⟨-, rfl⟩ := validateConstraints_eq_ok_iff.mp h.valid
    exact ⟨h, hargs⟩
  · rintro h
    exact ⟨_, runSandboxed_eq_ok_iff.mpr ⟨⟨_, h⟩, rfl⟩⟩

/-- A run with an argument that escapes is stopped, unless such an argument is overlooked and all
other checks pass. -/
theorem escapes_stopped_iff (host : RunnerHost) (parent : ProcessEnv) (config : SandboxRunConfig)
    (cwd : AbsPath) (hskip : config.skipArgPathScan = false) :
    ((∃ arg ∈ config.args, Escapes cwd config.required arg) →
        ∃ e, runSandboxed host parent config = .error e) ↔
      (Overlooked cwd config.required config.args →
        ¬Admitted parent config config.required) := by
  have hargs : ArgsPass config config.required ↔
      scanArgsForPathViolations config.args config.required = [] := by
    rw [ArgsPass, hskip]
    simp
  have hstopped : (∃ e, runSandboxed host parent config = .error e) ↔
      ¬(Admitted parent config config.required ∧ ArgsPass config config.required) := by
    rw [← spawns_iff host]
    cases runSandboxed host parent config <;> simp
  rw [hstopped, hargs, overlooked_iff]
  constructor
  · rintro h ⟨hescapes, hscan⟩ hadmitted
    exact h hescapes ⟨hadmitted, hscan⟩
  · rintro h hescapes ⟨hadmitted, hscan⟩
    exact h ⟨hescapes, hscan⟩ hadmitted

/-! ### Two runs in `/work` -/

def workPath : AbsPath := ⟨["work".toList], by decide⟩

/-- A command that may read below `/work` is run there. -/
def catRun (args : List String) : SandboxRunConfig where
  command := "cat"
  args := args
  cwd := some "/work"
  constraints :=
    { shellAllowed := some true
      allowedCommands := some ["cat"]
      allowedReadPaths := some ["/work"] }

def catHost : RunnerHost where
  execPath := "/usr/bin/node"
  existsSync path := path = "/usr/bin/cat"

theorem escapes_catRun (h : ¬workPath.segments <+: (workPath.resolve arg).segments) :
    Escapes workPath (catRun args).required arg := by
  intro allowed hmem
  obtain rfl := List.mem_singleton.mp hmem
  exact h

theorem parent_segments_stopped :
    ∃ e, runSandboxed catHost ∅ (catRun ["../etc/passwd"]) = .error e := by
  refine (escapes_stopped_iff catHost ∅ (catRun ["../etc/passwd"]) workPath rfl).mpr ?_
    ⟨_, List.mem_singleton_self _, escapes_catRun (by decide)⟩
  rintro ⟨⟨arg, hmem, hlooks, -⟩, -⟩
  obtain rfl := List.mem_singleton.mp hmem
  exact absurd hlooks (by decide)

/-- Parent segments behind another segment are not seen. -/
theorem inner_parent_segments_overlooked :
    (workPath.resolve "/work").Contains workPath ∧
      (catRun ["a/../../etc/passwd"]).skipArgPathScan = false ∧
      Escapes workPath (catRun ["a/../../etc/passwd"]).required "a/../../etc/passwd" ∧
      ∃ spawn, runSandboxed catHost ∅ (catRun ["a/../../etc/passwd"]) = .ok spawn :=
  ⟨List.prefix_rfl, rfl, escapes_catRun (by decide), _, rfl⟩

end KirkForge
