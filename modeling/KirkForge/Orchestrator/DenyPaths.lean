import KirkForge.Orchestrator.HardPrompt
import Mathlib.Algebra.Order.BigOperators.Group.List

/-!
# Denied paths

Both writers compare the relative path of a file with the entries of `denyPaths` as they are
spelled. The entries are honoured exactly when none of them is the working directory or above it,
and each one below it has a hidden segment or is matched, in its normal spelling, by the list
(`denyPathsHonoured_iff`).
-/

namespace KirkForge

open KirkForge.Path AbsPath

variable {cwd p denied : AbsPath} {denyPaths : List String} {rel path name : String}
  {segments rest : List (List Char)}

/-- A profile that denies the paths and does nothing else. -/
def denying (denyPaths : List String) : Option TaskProfileLike :=
  some { writePolicy := some { denyPaths := some denyPaths } }

/-- The path is denied by an entry, or it lies below a path that is. -/
def Denies (cwd : AbsPath) (denyPaths : List String) (p : AbsPath) : Prop :=
  ∃ d ∈ denyPaths, (cwd.resolve d).segments <+: p.segments

/-- No file that a writer reports as written is denied. -/
structure DenyPathsHonoured (cwd : AbsPath) (denyPaths : List String) : Prop where
  artifacts (sha256 : ByteArray → String) (profile : TaskProfileLike) (io : Nat → WriteIo)
    (disk : ArtifactDisk) (arts : List ParsedArtifact) :
    profile.writePolicy.bind (·.denyPaths) = some denyPaths →
      ∀ result ∈ (writeArtifacts sha256 cwd (some profile) io 0 disk arts).2, result.ok = true →
        ¬Denies cwd denyPaths (cwd.resolve result.filePath)
  hardPrompt (sha256 : ByteArray → String) (profile : EmissionSchema) (io : Nat → WriteIo)
    (readBack : Nat → Bool) (content : String) (targetFile : Option String) (forceOverwrite : Bool)
    (disk : ArtifactDisk) : profile.writePolicy.bind (·.denyPaths) = some denyPaths →
      ∀ name ∈ (persistCodeBlocks sha256 cwd (some profile) io readBack content targetFile
          forceOverwrite disk).2.written,
        ¬Denies cwd denyPaths (cwd.resolve name)

/-! ### The parts of a path -/

/-- A part that `hasHiddenSegment` looks for. -/
def isHiddenPart (part : List Char) : Bool :=
  Text.startsWith (String.ofList part) "." && String.ofList part != "." &&
    String.ofList part != ".." && !ALLOWED_HIDDEN_SEGMENTS.contains (String.ofList part)

theorem hasHiddenSegment_iff : hasHiddenSegment path = true ↔
    ∃ part ∈ path.toList.splitOnP isSeparator, isHiddenPart part = true := by
  rw [hasHiddenSegment, List.any_eq_true, pathParts]
  constructor
  · rintro ⟨part, hpart, hhidden⟩
    obtain ⟨cs, hcs, rfl⟩ := List.mem_map.mp hpart
    exact ⟨cs, List.mem_of_mem_filter hcs, hhidden⟩
  · rintro ⟨cs, hcs, hhidden⟩
    have hne : cs ≠ [] := by
      rintro rfl
      exact absurd hhidden (by decide)
    exact ⟨_, List.mem_map_of_mem (List.mem_filter.mpr ⟨hcs, decide_eq_true hne⟩), hhidden⟩

/-- What separators divide in a path of segments, they divide in a segment. -/
theorem mem_splitOnP_intercalate {part : List Char} (hne : segments ≠ []) :
    part ∈ (['/'].intercalate segments).splitOnP isSeparator ↔
      ∃ s ∈ segments, part ∈ s.splitOnP isSeparator := by
  induction segments with
  | nil => exact absurd rfl hne
  | cons s segments ih =>
    cases segments with
    | nil => simp
    | cons t segments =>
      rw [List.intercalate_cons_cons, List.append_assoc, List.singleton_append,
        List.splitOnP_append_cons _ _ (by decide), List.mem_append, ih (List.cons_ne_nil _ _)]
      simp

/-- A hidden part of a segment is a part of every path that resolves to the segment. -/
theorem hasHiddenSegment_of_resolve (hp : (cwd.resolve path).segments = cwd.segments ++ rest)
    {s part : List Char} (hs : s ∈ rest) (hpart : part ∈ s.splitOnP isSeparator)
    (hhidden : isHiddenPart part = true) : hasHiddenSegment path = true :=
  hasHiddenSegment_iff.mpr
    ⟨part, mem_splitOnP_of_mem_splitOn (mem_splitOn_of_resolve hp hs) hpart, hhidden⟩

theorem hasHiddenSegment_of_allowed {content : String} {profile : Option TaskProfileLike}
    (h : disallowedArtifact ⟨path, content⟩ profile = none) : hasHiddenSegment path = false := by
  by_contra hhidden
  rw [Bool.not_eq_false] at hhidden
  simp only [disallowedArtifact, hhidden, if_true] at h
  split at h
  · cases h
  · split at h <;> cases h

/-! ### Entries -/

theorem deniedPath_iff : deniedPath (denying denyPaths) rel = true ↔
    ∃ d ∈ denyPaths, rel = d ∨ d.toList ++ ['/'] <+: rel.toList := by
  rw [deniedPath, denying]
  simp [Text.startsWith]

theorem deniedPath_eq {profile : TaskProfileLike}
    (h : profile.writePolicy.bind (·.denyPaths) = some denyPaths) :
    deniedPath (some profile) rel = deniedPath (denying denyPaths) rel := by
  rw [deniedPath, Option.bind_some, h]
  rfl

/-- Below an entry that the list matches every path is matched. -/
theorem deniedPath_of_below (hdenied : denied.Inside cwd) (hbelow : denied.segments <+: p.segments)
    (h : deniedPath (denying denyPaths) (cwd.relative denied) = true) :
    deniedPath (denying denyPaths) (cwd.relative p) = true := by
  obtain ⟨s, front, hfront⟩ := hdenied
  obtain ⟨back, hback⟩ := hbelow
  rw [hfront, List.append_assoc, List.cons_append] at hback
  rw [relative_of_inside hfront, deniedPath_iff] at h
  rw [relative_of_inside hback.symm, deniedPath_iff]
  simp only [String.toList_ofList] at h ⊢
  obtain ⟨d, hd, hmatch⟩ := h
  cases back with
  | nil => exact ⟨d, hd, by rwa [List.append_nil]⟩
  | cons t back =>
    have htext : ['/'].intercalate (s :: (front ++ t :: back)) =
        ['/'].intercalate (s :: front) ++ '/' :: ['/'].intercalate (t :: back) := by
      rw [intercalate_cons_eq, intercalate_cons_eq, intercalate_cons_eq]
      simp [slashed]
    refine ⟨d, hd, .inr ?_⟩
    rw [htext]
    rcases hmatch with rfl | hmatch
    · rw [String.toList_ofList]
      exact ⟨_, by rw [List.append_assoc, List.singleton_append]⟩
    · exact hmatch.trans (List.prefix_append _ _)

/-! ### A file below an entry that is not matched -/

/-- A name that no entry has room for. -/
def freshSegment (denyPaths : List String) : List Char :=
  List.replicate ((denyPaths.map String.length).sum + 1) 'a'

/-- The new file in the directory, spelled with a dot in front. -/
def freshPath (denyPaths : List String) (dir : List (List Char)) : String :=
  String.ofList (['/'].intercalate (['.'] :: (dir ++ [freshSegment denyPaths])))

theorem eq_of_mem_freshSegment {c : Char} (h : c ∈ freshSegment denyPaths) : c = 'a' :=
  List.eq_of_mem_replicate h

theorem notMem_freshSegment {c : Char} (h : c ≠ 'a') : c ∉ freshSegment denyPaths :=
  fun hmem => h (eq_of_mem_freshSegment hmem)

theorem head?_freshSegment : (freshSegment denyPaths).head? = some 'a' := rfl

theorem startsWith_freshSegment :
    Text.startsWith (String.ofList (freshSegment denyPaths)) "." = false := by
  simp only [Text.startsWith, String.toList_ofList]
  rfl

theorem isSegment_freshSegment : IsSegment (freshSegment denyPaths) := by
  have hhead : (freshSegment denyPaths).head? = some 'a' := head?_freshSegment
  refine ⟨?_, ?_, ?_, notMem_freshSegment (by decide)⟩
  all_goals
    intro h
    rw [h] at hhead
    exact absurd hhead (by decide)

theorem length_lt_freshSegment {d : String} (h : d ∈ denyPaths) :
    d.length < (freshSegment denyPaths).length := by
  rw [freshSegment, List.length_replicate]
  exact Nat.lt_succ_of_le (List.le_sum_of_mem (List.mem_map_of_mem h))

section Fresh

variable {dir : List (List Char)} (hdir : ∀ s ∈ dir, IsSegment s)

include hdir

theorem isSegment_concat_fresh : ∀ s ∈ dir ++ [freshSegment denyPaths], IsSegment s :=
  List.forall_mem_append.mpr ⟨hdir, List.forall_mem_singleton.mpr isSegment_freshSegment⟩

theorem splitOn_freshPath : (freshPath denyPaths dir).toList.splitOn '/' =
    ['.'] :: (dir ++ [freshSegment denyPaths]) := by
  rw [freshPath, String.toList_ofList]
  refine List.splitOn_intercalate '/' ?_ (List.cons_ne_nil _ _)
  exact List.forall_mem_cons.mpr
    ⟨by decide, fun s hs => (isSegment_concat_fresh hdir s hs).no_slash⟩

theorem segments_resolve_freshPath : (cwd.resolve (freshPath denyPaths dir)).segments =
    cwd.segments ++ (dir ++ [freshSegment denyPaths]) := by
  have hhead : (freshPath denyPaths dir).toList.head? ≠ some '/' := by
    rw [freshPath, String.toList_ofList, intercalate_cons_eq]
    exact ne_of_beq_false rfl
  have hdot (kept : List (List Char)) : addSegment false kept ['.'] = kept := if_pos (.inr rfl)
  rw [segments_resolve, splitOn_freshPath hdir, if_neg hhead, List.foldl_cons, hdot,
    foldl_addSegment_of_isSegment (isSegment_concat_fresh hdir), List.reverse_append,
    List.reverse_reverse, List.reverse_reverse]

theorem inside_freshPath : (cwd.resolve (freshPath denyPaths dir)).Inside cwd := by
  obtain ⟨s, rest, h⟩ := List.exists_cons_of_ne_nil
    (List.append_ne_nil_of_right_ne_nil dir (List.cons_ne_nil (freshSegment denyPaths) []))
  exact ⟨s, rest, by rw [segments_resolve_freshPath hdir, h]⟩

theorem basename_freshPath :
    basename (freshPath denyPaths dir) = String.ofList (freshSegment denyPaths) := by
  have hall : ∀ s ∈ ['.'] :: (dir ++ [freshSegment denyPaths]), decide (s ≠ []) = true :=
    List.forall_mem_cons.mpr
      ⟨by decide, fun s hs => decide_eq_true (isSegment_concat_fresh hdir s hs).ne_nil⟩
  rw [basename, splitOn_freshPath hdir, List.filter_eq_self.mpr hall, ← List.cons_append,
    List.getLastD_eq_getLast?, List.getLast?_concat, Option.getD_some]

omit hdir in
theorem hasHiddenSegment_freshPath
    (hvisible : ∀ s ∈ dir, ∀ part ∈ s.splitOnP isSeparator, isHiddenPart part = false) :
    hasHiddenSegment (freshPath denyPaths dir) = false := by
  rw [Bool.eq_false_iff, Ne, hasHiddenSegment_iff]
  rintro ⟨part, hpart, hhidden⟩
  rw [freshPath, String.toList_ofList, mem_splitOnP_intercalate (List.cons_ne_nil _ _)] at hpart
  obtain ⟨s, hs, hpart⟩ := hpart
  rcases List.mem_cons.mp hs with rfl | hs
  · rw [show ['.'].splitOnP isSeparator = [['.']] from rfl, List.mem_singleton] at hpart
    rw [hpart] at hhidden
    exact absurd hhidden (by decide)
  rcases List.mem_append.mp hs with hs | hs
  · exact absurd hhidden (Bool.eq_false_iff.mp (hvisible s hs part hpart))
  · rw [List.mem_singleton.mp hs, List.splitOnP_eq_singleton, List.mem_singleton] at hpart
    · rw [hpart, isHiddenPart, startsWith_freshSegment] at hhidden
      cases hhidden
    · intro c hc
      rw [eq_of_mem_freshSegment hc]
      decide

/-- The new file is refused for its path by the list of denied paths alone. -/
theorem disallowedArtifact_freshPath (content : String)
    (hvisible : ∀ s ∈ dir, ∀ part ∈ s.splitOnP isSeparator, isHiddenPart part = false) :
    disallowedArtifact ⟨freshPath denyPaths dir, content⟩ (denying denyPaths) = none := by
  have habsolute : isAbsolutePath (freshPath denyPaths dir) = false := by
    obtain ⟨s, rest, h⟩ := List.exists_cons_of_ne_nil
      (List.append_ne_nil_of_right_ne_nil dir (List.cons_ne_nil (freshSegment denyPaths) []))
    rw [freshPath, h, intercalate_cons_eq]
    simp only [isAbsolutePath, Text.startsWith, String.toList_ofList]
    rfl
  have hext : extractExtension (freshPath denyPaths dir) = "" := by
    rw [extractExtension, basename_freshPath hdir, String.toList_ofList, if_neg]
    exact fun h => notMem_freshSegment (by decide) h.1
  simp only [disallowedArtifact, basename_freshPath hdir, habsolute, startsWith_freshSegment, hext,
    hasHiddenSegment_freshPath hvisible]
  rfl

omit hdir in
/-- A directory in front of the last slash of a text is the text before it, or is in front of a
slash of that. -/
theorem eq_or_slash_inside {entry text last : List Char} (hlast : '/' ∉ last)
    (h : entry ++ ['/'] <+: text ++ '/' :: last) : entry = text ∨ entry ++ ['/'] <+: text := by
  obtain ⟨more, hmore⟩ := h
  rw [List.append_assoc, List.singleton_append] at hmore
  rcases List.append_eq_append_iff.mp hmore with ⟨as, htext, has⟩ | ⟨bs, hentry, hbs⟩
  · cases as with
    | nil => exact .inl (by rw [htext, List.append_nil])
    | cons c as =>
      obtain ⟨rfl, -⟩ := List.cons.inj has
      exact .inr ⟨as, by rw [htext]; simp⟩
  · cases bs with
    | nil => exact .inl (by rw [hentry, List.append_nil])
    | cons c bs =>
      obtain ⟨rfl, hrest⟩ := List.cons.inj hbs
      exact absurd (hrest ▸ by simp) hlast

/-- Its relative path is too long for every entry, and goes on with no slash. -/
theorem deniedPath_freshPath
    (h : dir ≠ [] →
      deniedPath (denying denyPaths) (String.ofList (['/'].intercalate dir)) = false) :
    deniedPath (denying denyPaths)
      (cwd.relative (cwd.resolve (freshPath denyPaths dir))) = false := by
  have hrel : (cwd.relative (cwd.resolve (freshPath denyPaths dir))).toList =
      ['/'].intercalate (dir ++ [freshSegment denyPaths]) := by
    rw [relative, segments_resolve_freshPath hdir, relativeSegments_append, String.toList_ofList]
  rw [Bool.eq_false_iff, Ne, deniedPath_iff]
  rintro ⟨d, hd, hmatch⟩
  have hslash : '/' ∉ freshSegment denyPaths := notMem_freshSegment (by decide)
  have hlt := length_lt_freshSegment hd
  by_cases hnil : dir = []
  · subst hnil
    simp only [List.nil_append, List.intercalate_singleton] at hrel
    rcases hmatch with rfl | hmatch
    · rw [← String.length_toList, hrel] at hlt
      exact Nat.lt_irrefl _ hlt
    · rw [hrel] at hmatch
      exact hslash (hmatch.subset (List.mem_append_right _ (List.mem_singleton_self _)))
  · have htext : ['/'].intercalate (dir ++ [freshSegment denyPaths]) =
        ['/'].intercalate dir ++ '/' :: freshSegment denyPaths := by
      obtain ⟨s, rest, rfl⟩ := List.exists_cons_of_ne_nil hnil
      rw [List.cons_append, intercalate_cons_eq, intercalate_cons_eq]
      simp [slashed]
    rw [htext] at hrel
    have hnot := h hnil
    rw [Bool.eq_false_iff, Ne, deniedPath_iff] at hnot
    simp only [String.toList_ofList] at hnot
    rcases hmatch with rfl | hmatch
    · have hlen := congrArg List.length hrel
      rw [String.length_toList, List.length_append, List.length_cons] at hlen
      omega
    · rw [hrel] at hmatch
      rcases eq_or_slash_inside hslash hmatch with heq | hinside
      · exact hnot ⟨d, hd, .inl (by rw [← heq, String.ofList_toList])⟩
      · exact hnot ⟨d, hd, .inr hinside⟩

end Fresh

/-! ### Which entries are honoured -/

/-- The entry does not cover the working directory; if it is below, the path is refused as hidden,
or the list matches it. -/
def EntryHonoured (cwd : AbsPath) (denyPaths : List String) (d : String) : Prop :=
  ¬(cwd.resolve d).segments <+: cwd.segments ∧
    ((cwd.resolve d).Inside cwd → hasHiddenSegment (cwd.relative (cwd.resolve d)) = true ∨
      deniedPath (denying denyPaths) (cwd.relative (cwd.resolve d)) = true)

/-- The checks that both writers make keep away from the entries that are honoured. -/
theorem not_denies_of_checks (h : ∀ d ∈ denyPaths, EntryHonoured cwd denyPaths d)
    (hinside : isInsideCwd (cwd.resolve path) cwd = true) (hvisible : hasHiddenSegment path = false)
    (hnot : deniedPath (denying denyPaths) (cwd.relative (cwd.resolve path)) = false) :
    ¬Denies cwd denyPaths (cwd.resolve path) := by
  rintro ⟨d, hd, hbelow⟩
  obtain ⟨s, rest, hp⟩ := isInsideCwd_iff.mp hinside
  obtain ⟨hcovers, hentry⟩ := h d hd
  have hprefix : cwd.segments <+: (cwd.resolve path).segments := ⟨_, hp.symm⟩
  obtain ⟨back, hback⟩ := (List.prefix_or_prefix_of_prefix hprefix hbelow).resolve_right hcovers
  obtain ⟨t, front, rfl⟩ : ∃ t front, back = t :: front := by
    apply List.exists_cons_of_ne_nil
    rintro rfl
    exact hcovers ⟨[], by rw [← hback, List.append_nil, List.append_nil]⟩
  have hdenied : (cwd.resolve d).Inside cwd := ⟨t, front, hback.symm⟩
  rcases hentry hdenied with hhidden | hmatch
  · rw [relative_of_inside hback.symm, hasHiddenSegment_iff, String.toList_ofList] at hhidden
    obtain ⟨part, hpart, hhidden⟩ := hhidden
    obtain ⟨u, hu, hpart⟩ := (mem_splitOnP_intercalate (List.cons_ne_nil _ _)).mp hpart
    have hmem : u ∈ s :: rest := by
      rw [← hback, hp, List.prefix_append_right_inj] at hbelow
      exact hbelow.subset hu
    rw [hasHiddenSegment_of_resolve hp hmem hpart hhidden] at hvisible
    cases hvisible
  · rw [deniedPath_of_below hdenied hbelow hmatch] at hnot
    cases hnot

/-- An ok result has passed the checks. -/
theorem passesChecks_of_ok {sha256 : ByteArray → String} {profile : Option TaskProfileLike}
    {io : Nat → WriteIo} {i : Nat} {disk : ArtifactDisk} {arts : List ParsedArtifact}
    {result : WriteResult} (h : result ∈ (writeArtifacts sha256 cwd profile io i disk arts).2)
    (hok : result.ok = true) : ∃ art ∈ arts, PassesChecks cwd profile art ∧
      cwd.resolve result.filePath = cwd.resolve art.filePath := by
  induction arts generalizing i disk with
  | nil => cases h
  | cons art arts ih =>
    simp only [writeArtifacts] at h
    rcases writeArtifact_cases sha256 cwd profile (io i) disk art with
      ⟨disk', reason, heq, -⟩ | ⟨disk', written, heq, hwritten⟩
    · rw [heq] at h
      rcases List.mem_cons.mp h with rfl | h
      · cases hok
      · obtain ⟨art', hart', hspec⟩ := ih h
        exact ⟨art', List.mem_cons_of_mem _ hart', hspec⟩
    · rw [heq] at h
      rcases List.mem_cons.mp h with rfl | h
      · refine ⟨art, List.mem_cons_self, hwritten.pass, ?_⟩
        rw [hwritten.filePath, resolve_relative (isInsideCwd_iff.mp hwritten.pass.inside)]
      · obtain ⟨art', hart', hspec⟩ := ih h
        exact ⟨art', List.mem_cons_of_mem _ hart', hspec⟩

/-- What passes the checks can be written. -/
theorem DenyPathsHonoured.not_denies (h : DenyPathsHonoured cwd denyPaths) {art : ParsedArtifact}
    (hpass : PassesChecks cwd (denying denyPaths) art) :
    ¬Denies cwd denyPaths (cwd.resolve art.filePath) := by
  have hstarts : (onlyWrite 0 0).stoppedAt = none := rfl
  have hok : (writeArtifact (fun _ => "") cwd (denying denyPaths) (onlyWrite 0 0)
      (FileSystem.onlyDirs cwd.segments) art).2.ok = true :=
    writeArtifact_written hstarts (bareDisk_onlyDirs cwd) hpass
  have hmem : (writeArtifact (fun _ => "") cwd (denying denyPaths) (onlyWrite 0 0)
      (FileSystem.onlyDirs cwd.segments) art).2 ∈ (writeArtifacts (fun _ => "") cwd
        (denying denyPaths) (onlyWrite 0) 0 (FileSystem.onlyDirs cwd.segments) [art]).2 :=
    List.mem_singleton_self _
  obtain ⟨art', hart', -, hpath⟩ := passesChecks_of_ok hmem hok
  have hfile := h.artifacts _ _ _ _ _ rfl _ hmem hok
  rwa [hpath, List.mem_singleton.mp hart'] at hfile

/-- Where the list does not match a directory, a file in it can be written. -/
theorem not_denies_freshPath (h : DenyPathsHonoured cwd denyPaths) {dir : List (List Char)}
    (hdir : ∀ s ∈ dir, IsSegment s)
    (hvisible : ∀ s ∈ dir, ∀ part ∈ s.splitOnP isSeparator, isHiddenPart part = false)
    (hnot : dir ≠ [] →
      deniedPath (denying denyPaths) (String.ofList (['/'].intercalate dir)) = false) :
    ¬Denies cwd denyPaths (cwd.resolve (freshPath denyPaths dir)) := by
  have hsize : byteLength "x" ≤ MAX_ARTIFACT_BYTES := by decide
  have htext : isBinaryLikeContent "x" = false := by decide
  have hpass : PassesChecks cwd (denying denyPaths) ⟨freshPath denyPaths dir, "x"⟩ := {
    inside := isInsideCwd_iff.mpr (inside_freshPath hdir)
    allowed := disallowedArtifact_freshPath hdir "x" hvisible
    size := hsize
    text := htext
    not_denied := deniedPath_freshPath hdir hnot }
  have hfile := h.not_denies hpass
  exact hfile

theorem denyPathsHonoured_iff (cwd : AbsPath) (denyPaths : List String) :
    DenyPathsHonoured cwd denyPaths ↔ ∀ d ∈ denyPaths, EntryHonoured cwd denyPaths d := by
  constructor
  · intro h d hd
    refine ⟨fun hcovers => ?_, fun hinside => ?_⟩
    · have hall : ∀ s ∈ ([] : List (List Char)), IsSegment s := List.forall_mem_nil _
      refine not_denies_freshPath h hall (List.forall_mem_nil _) (fun hne => absurd rfl hne)
        ⟨d, hd, ?_⟩
      rw [segments_resolve_freshPath hall]
      exact hcovers.trans (List.prefix_append _ _)
    · obtain ⟨s, rest, hsegments⟩ := hinside
      rw [relative_of_inside hsegments]
      by_contra hneither
      rw [not_or, Bool.not_eq_true, Bool.not_eq_true] at hneither
      obtain ⟨hvisible, hnot⟩ := hneither
      have hall := isSegment_of_inside hsegments
      refine not_denies_freshPath h hall (fun t ht part hpart => ?_) (fun _ => hnot) ⟨d, hd, ?_⟩
      · rw [Bool.eq_false_iff] at hvisible ⊢
        intro hhidden
        refine hvisible (hasHiddenSegment_iff.mpr ⟨part, ?_, hhidden⟩)
        rw [String.toList_ofList]
        exact (mem_splitOnP_intercalate (List.cons_ne_nil _ _)).mpr ⟨t, ht, hpart⟩
      · rw [segments_resolve_freshPath hall, hsegments, List.prefix_append_right_inj]
        exact List.prefix_append _ _
  · intro h
    refine ⟨fun sha256 profile io disk arts hprofile result hresult hok => ?_,
      fun sha256 profile io readBack content targetFile forceOverwrite disk hprofile name hname =>
        ?_⟩
    · obtain ⟨art, -, hpass, hpath⟩ := passesChecks_of_ok hresult hok
      have hnot := hpass.not_denied
      rw [deniedPath_eq hprofile] at hnot
      rw [hpath]
      exact not_denies_of_checks h hpass.inside (hasHiddenSegment_of_allowed hpass.allowed) hnot
    · obtain ⟨hinside, ⟨content, hallowed⟩, hnot⟩ := written_persistCodeBlocks hname
      rw [Option.map_some, deniedPath_eq hprofile] at hnot
      exact not_denies_of_checks h hinside (hasHiddenSegment_of_allowed hallowed) hnot

/-- With a slash at its end an entry matches nothing. -/
theorem trailing_slash_not_honoured :
    ¬DenyPathsHonoured (AbsPath.root.resolve "/work") ["secrets/"] := by
  intro h
  have hpass : PassesChecks (AbsPath.root.resolve "/work") (denying ["secrets/"])
      ⟨"secrets/key.txt", "x"⟩ :=
    ⟨by decide, by decide, by decide, by decide, by decide⟩
  refine h.not_denies hpass ⟨_, List.mem_singleton_self _, ?_⟩
  decide

end KirkForge
