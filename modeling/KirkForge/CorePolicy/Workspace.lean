import KirkForge.CoreTypes.Access
import KirkForge.Theory.JsNumber
import KirkForge.Theory.Path
import KirkForge.Theory.Text
import Mathlib.Data.Finset.Lattice.Fold
import Mathlib.Data.Finset.Max

/-!
# Workspace containment

`PolicyEngine.checkWorkspace` (`core-policy/src/index.ts`). It compares the texts of resolved paths,
takes the depth below the first root whose text fits, and has no limit where `maxPathDepth` is left
out, zero or NaN, or where that root is the empty string.
-/

namespace KirkForge

/-- The part of a policy that governs workspaces. `allowSymlinks` is not looked at here. -/
structure WorkspacePolicy where
  allowedRoots : List String
  maxPathDepth : Option JsNumber := none

/-- What `checkWorkspace` reads of a policy engine: the policy, its hash and the working directory
of the process. -/
structure PolicyEngine where
  workspaces : WorkspacePolicy
  hash : String
  cwd : AbsPath

def deny (rule reason policyHash : String) : PolicyDecision :=
  { allowed := false, reason, policyHash, rule }

def allow (rule reason policyHash : String) : PolicyDecision :=
  { allowed := true, reason, policyHash, rule }

namespace PolicyEngine

variable (engine : PolicyEngine)

/-- `abs.startsWith(resolve(root))` -/
def matchesRoot (abs : AbsPath) (root : String) : Bool :=
  (engine.cwd.resolve root).chars.isPrefixOf abs.chars

/-- The depth of `abs` below a root whose text is a prefix of its own. -/
def relDepth (abs : AbsPath) (root : String) : Nat :=
  AbsPath.partCount (abs.chars.drop (engine.cwd.resolve root).chars.length)

def checkWorkspace (workspacePath : String) : PolicyDecision :=
  let policy := engine.workspaces
  if policy.allowedRoots.length = 0 then
    deny "workspace_no_allowlist"
      ("No workspace allowlist configured; path \"" ++ workspacePath ++ "\" denied by default")
      engine.hash
  else
    let abs := engine.cwd.resolve workspacePath
    let contained := policy.allowedRoots.any (engine.matchesRoot abs)
    if !contained then
      deny "workspace_not_allowed"
        ("Path \"" ++ workspacePath ++ "\" is not within any allowed root") engine.hash
    else
      let allowed :=
        allow "workspace_allowed" ("Path \"" ++ workspacePath ++ "\" is within allowed roots")
          engine.hash
      match policy.maxPathDepth with
      | none => allowed
      | some maxPathDepth =>
        if !maxPathDepth.truthy then allowed
        else
          match policy.allowedRoots.find? (engine.matchesRoot abs) with
          | none => allowed
          | some matchedRoot =>
            if matchedRoot = "" then allowed
            else if JsNumber.gt (engine.relDepth abs matchedRoot) maxPathDepth then
              deny "workspace_path_too_deep"
                ("Path \"" ++ workspacePath ++ "\" exceeds max depth " ++ maxPathDepth.text)
                engine.hash
            else allowed

/-! ### Containment by segments -/

/-- The limit that the policy sets, 10 where it sets none. -/
def depthLimit : JsNumber := engine.workspaces.maxPathDepth.getD 10

/-- The depth of `path` below `root` is at most `limit`. -/
def WithinDepth (limit : JsNumber) (root path : AbsPath) : Prop :=
  JsNumber.le ((path.segments.length - root.segments.length : Nat) : JsNumber) limit = true

/-- Some allowed root is an ancestor of the path or the path itself, and not too far above it. -/
def Contained (path : AbsPath) : Prop :=
  ∃ root ∈ engine.workspaces.allowedRoots, (engine.cwd.resolve root).Contains path ∧
    WithinDepth engine.depthLimit (engine.cwd.resolve root) path

/-- The root is the path, one of its ancestors or, as far as the texts go, a sibling of one. -/
def Fits (path : AbsPath) (root : String) : Prop :=
  (engine.cwd.resolve root).Contains path ∨ (engine.cwd.resolve root).Sibling path

/-- How far the path is below a root that fits, one more below a sibling. -/
def FitsWithin (limit : JsNumber) (path : AbsPath) (root : String) : Prop :=
  ((engine.cwd.resolve root).Contains path ∧ WithinDepth limit (engine.cwd.resolve root) path) ∨
    ((engine.cwd.resolve root).Sibling path ∧
      JsNumber.le ((path.segments.length + 1 - (engine.cwd.resolve root).segments.length : Nat) :
        JsNumber) limit = true)

/-- The first root that fits, in the order of the policy. -/
def FirstFit (path : AbsPath) (root : String) : Prop :=
  ∃ before after, engine.workspaces.allowedRoots = before ++ root :: after ∧
    engine.Fits path root ∧ ∀ r ∈ before, ¬engine.Fits path r

/-- None of the inputs on which text comparison, the choice of the root or a missing limit decide
otherwise than containment does. -/
structure Unambiguous (path : AbsPath) : Prop where
  /-- Without a limit in force, some root that fits contains the path within the limit. -/
  unlimited : engine.workspaces.maxPathDepth.all (fun d => !d.truthy) →
    ∀ root ∈ engine.workspaces.allowedRoots, engine.Fits path root → engine.Contained path
  /-- Nor with the empty root, which stands for the working directory, in the first place. -/
  empty : engine.FirstFit path "" → engine.Contained path
  /-- A sibling that fits first and is near enough stands before a containing root. -/
  sibling : ∀ root, engine.FirstFit path root → (engine.cwd.resolve root).Sibling path →
    engine.FitsWithin engine.depthLimit path root → engine.Contained path
  /-- A root that fits first and is too far up shadows no nearer one. -/
  shadowed : engine.workspaces.maxPathDepth.any JsNumber.truthy → ∀ root ≠ "",
    engine.FirstFit path root → ¬engine.FitsWithin engine.depthLimit path root →
      ¬engine.Contained path

variable {engine}

theorem matchesRoot_iff {path : AbsPath} {root : String} :
    engine.matchesRoot path root = true ↔ engine.Fits path root := by
  rw [matchesRoot, List.isPrefixOf_iff_prefix]
  exact AbsPath.chars_prefix_iff

theorem relDepth_of_fits {path : AbsPath} {root : String} (h : engine.Fits path root) :
    ((engine.cwd.resolve root).Contains path ∧ engine.relDepth path root =
        path.segments.length - (engine.cwd.resolve root).segments.length) ∨
      ((engine.cwd.resolve root).Sibling path ∧ engine.relDepth path root =
        path.segments.length + 1 - (engine.cwd.resolve root).segments.length) := by
  obtain ⟨rest, hrest⟩ := AbsPath.chars_prefix_iff.mpr h
  have hdrop : path.chars.drop (engine.cwd.resolve root).chars.length = rest := by
    rw [← hrest, List.drop_left]
  rw [relDepth, hdrop]
  rcases AbsPath.chars_append_eq hrest with ⟨hc, hn⟩ | ⟨hs, hn⟩
  · exact .inl ⟨hc, by omega⟩
  · exact .inr ⟨hs, by omega⟩

theorem le_relDepth_iff {path : AbsPath} {root : String} {limit : JsNumber}
    (h : engine.Fits path root) :
    JsNumber.le (engine.relDepth path root) limit = true ↔ engine.FitsWithin limit path root := by
  rcases relDepth_of_fits h with ⟨hc, hn⟩ | ⟨hs, hn⟩
  · have hnot : ¬(engine.cwd.resolve root).Sibling path := fun hs => hs.not_contains hc
    simp only [FitsWithin, hc, hnot, true_and, false_and, or_false, hn, WithinDepth]
  · simp only [FitsWithin, hs, hs.not_contains, true_and, false_and, false_or, hn]

theorem exists_firstFit_iff {path : AbsPath} :
    (∃ root, engine.FirstFit path root) ↔
      ∃ root ∈ engine.workspaces.allowedRoots, engine.Fits path root := by
  constructor
  · rintro ⟨root, before, after, hroots, hfits, -⟩
    exact ⟨root, by simp [hroots], hfits⟩
  · rintro ⟨root, hroot, hfits⟩
    have hsome : (engine.workspaces.allowedRoots.find? (engine.matchesRoot path)).isSome :=
      List.find?_isSome.mpr ⟨root, hroot, matchesRoot_iff.mpr hfits⟩
    obtain ⟨first, hfirst⟩ := Option.isSome_iff_exists.mp hsome
    obtain ⟨hmatch, before, after, hroots, hbefore⟩ := List.find?_eq_some_iff_append.mp hfirst
    refine ⟨first, before, after, hroots, matchesRoot_iff.mp hmatch, fun r hr hr' => ?_⟩
    simpa [matchesRoot_iff.mpr hr'] using hbefore r hr

theorem find?_eq_some_iff {path : AbsPath} {root : String} :
    engine.workspaces.allowedRoots.find? (engine.matchesRoot path) = some root ↔
      engine.FirstFit path root := by
  rw [List.find?_eq_some_iff_append]
  constructor
  · rintro ⟨hmatch, before, after, hroots, hbefore⟩
    refine ⟨before, after, hroots, matchesRoot_iff.mp hmatch, fun r hr hr' => ?_⟩
    simpa [matchesRoot_iff.mpr hr'] using hbefore r hr
  · rintro ⟨before, after, hroots, hfits, hbefore⟩
    refine ⟨matchesRoot_iff.mpr hfits, before, after, hroots, fun r hr => ?_⟩
    rw [Bool.not_eq_true', ← Bool.not_eq_true, matchesRoot_iff]
    exact hbefore r hr

theorem FirstFit.unique {path : AbsPath} {root root' : String} (h : engine.FirstFit path root)
    (h' : engine.FirstFit path root') : root = root' :=
  Option.some_injective _ ((find?_eq_some_iff.mpr h).symm.trans (find?_eq_some_iff.mpr h'))

/-- What the decision rests on: the first root that fits and whether a limit is in force. -/
theorem checkWorkspace_allowed_iff {workspacePath : String} {path : AbsPath}
    (hpath : engine.cwd.resolve workspacePath = path) :
    (engine.checkWorkspace workspacePath).allowed = true ↔
      ∃ root, engine.FirstFit path root ∧
        (engine.workspaces.maxPathDepth.all (fun d => !d.truthy) = true ∨ root = "" ∨
          engine.FitsWithin engine.depthLimit path root) := by
  have hany : engine.workspaces.allowedRoots.any (engine.matchesRoot path) = true ↔
      ∃ root, engine.FirstFit path root := by
    rw [exists_firstFit_iff, List.any_eq_true]
    exact exists_congr fun root => and_congr_right fun _ => matchesRoot_iff
  simp only [checkWorkspace, hpath]
  split
  · next hnil =>
    refine iff_of_false Bool.false_ne_true ?_
    rintro ⟨root, ⟨before, after, hroots, -⟩, -⟩
    simp [hroots] at hnil
  split
  · next hnone =>
    rw [Bool.not_eq_true', ← Bool.not_eq_true, hany] at hnone
    exact iff_of_false Bool.false_ne_true fun ⟨root, h, _⟩ => hnone ⟨root, h⟩
  · next hsome =>
    rw [Bool.not_eq_true', Bool.not_eq_false, hany] at hsome
    obtain ⟨first, hfirst⟩ := hsome
    have hroot {p : Prop} {q : String → Prop} :
        (∃ root, engine.FirstFit path root ∧ (p ∨ q root)) ↔ p ∨ q first :=
      ⟨fun ⟨root, h, hpq⟩ => h.unique hfirst ▸ hpq, fun hpq => ⟨first, hfirst, hpq⟩⟩
    rw [hroot, depthLimit]
    cases hlimit : engine.workspaces.maxPathDepth with
    | none => exact iff_of_true rfl (.inl rfl)
    | some limit =>
      by_cases hon : limit.truthy = true
      · have hnan : limit ≠ .nan := by
          rintro rfl
          exact absurd hon (by decide)
        have hfind := find?_eq_some_iff.mpr hfirst
        obtain ⟨before, after, -, hfits, -⟩ := hfirst
        have hgt := JsNumber.gt_eq_not_le
          (JsNumber.natCast_ne_nan (engine.relDepth path first)) hnan
        have hle : _ ↔ engine.FitsWithin limit path first := le_relDepth_iff hfits
        simp only [hon, Bool.not_true, Bool.false_eq_true, if_false, Option.all_some, false_or,
          Option.getD_some, hfind, hgt, ← hle]
        split
        · next hempty => exact iff_of_true rfl (.inl hempty)
        · next hname =>
          rw [or_iff_right hname]
          cases JsNumber.le (engine.relDepth path first) limit <;> simp [deny, allow]
      · simp [hon, allow]

/-- A root that contains the path fits it. -/
theorem Contained.exists_firstFit {path : AbsPath} (h : engine.Contained path) :
    ∃ root, engine.FirstFit path root := by
  obtain ⟨root, hroot, hc, -⟩ := h
  exact exists_firstFit_iff.mpr ⟨root, hroot, .inl hc⟩

theorem any_truthy_iff : engine.workspaces.maxPathDepth.any JsNumber.truthy = true ↔
    ¬engine.workspaces.maxPathDepth.all (fun d => !d.truthy) = true := by
  cases engine.workspaces.maxPathDepth <;> simp

/-- The decision agrees with containment by segments exactly on the unambiguous inputs. -/
theorem checkWorkspace_eq_contained_iff (engine : PolicyEngine) (path : AbsPath) :
    ((engine.checkWorkspace path.text).allowed = true ↔ engine.Contained path) ↔
      engine.Unambiguous path := by
  rw [checkWorkspace_allowed_iff (AbsPath.resolve_text _ _)]
  constructor
  · intro h
    refine ⟨fun hoff root hroot hfits => ?_, fun hfirst => ?_, fun root hfirst _ hwithin => ?_,
      fun hon root hname hfirst hfar hcontained => ?_⟩
    · obtain ⟨first, hfirst⟩ := exists_firstFit_iff.mpr ⟨root, hroot, hfits⟩
      exact h.mp ⟨first, hfirst, .inl hoff⟩
    · exact h.mp ⟨"", hfirst, .inr (.inl rfl)⟩
    · exact h.mp ⟨root, hfirst, .inr (.inr hwithin)⟩
    · obtain ⟨root', hfirst', hoff | hempty | hwithin⟩ := h.mpr hcontained
      · exact any_truthy_iff.mp hon hoff
      · exact hname (hfirst.unique hfirst' ▸ hempty)
      · exact hfar (hfirst'.unique hfirst ▸ hwithin)
  · intro h
    constructor
    · rintro ⟨root, hfirst, hallowed⟩
      have hfirst' := hfirst
      obtain ⟨before, after, hroots, hfits, -⟩ := hfirst'
      have hroot : root ∈ engine.workspaces.allowedRoots := by simp [hroots]
      rcases hallowed with hoff | rfl | hwithin
      · exact h.unlimited hoff root hroot hfits
      · exact h.empty hfirst
      · rcases hwithin with hcontains | hsibling
        · exact ⟨root, hroot, hcontains⟩
        · exact h.sibling root hfirst hsibling.1 (.inr hsibling)
    · intro hcontained
      obtain ⟨root, hfirst⟩ := hcontained.exists_firstFit
      refine ⟨root, hfirst, or_iff_not_imp_left.mpr fun hon => ?_⟩
      refine or_iff_not_imp_left.mpr fun hname => ?_
      by_contra hfar
      exact h.shadowed (any_truthy_iff.mpr hon) root hname hfirst hfar hcontained

/-- `/work` admits its sibling `/work-evil`. -/
theorem checkWorkspace_admits_sibling :
    ¬∀ (engine : PolicyEngine) (path : AbsPath),
      (engine.checkWorkspace path.text).allowed = true ↔ engine.Contained path := by
  intro h
  let path : AbsPath := ⟨["work-evil".toList], by decide⟩
  let engine : PolicyEngine :=
    { workspaces := { allowedRoots := ["/work"], maxPathDepth := some 10 }, hash := "", cwd := .root }
  obtain ⟨root, hroot, hcontains, -⟩ := (h engine path).mp (by decide)
  rw [List.mem_singleton.mp hroot] at hcontains
  exact absurd hcontains (by unfold AbsPath.Contains; decide)

end PolicyEngine

end KirkForge

/-!
## Paths that no root contains

A sibling of a root is let in like a path below it. Unless there is no root at all, or one that
contains everything, there is then some path that is let in and that no root contains. Only a limit
below one keeps the siblings out.
-/

namespace KirkForge

namespace AbsPath

theorem eq_of_segments {p q : AbsPath} (h : p.segments = q.segments) : p = q := by
  cases p
  cases q
  cases h
  rfl

/-- The sibling of a path with more characters in its last segment. -/
theorem exists_stretched {r : AbsPath} (h : r ≠ root) (n : Nat) :
    ∃ (p : AbsPath) (parent : List (List Char)) (last : List Char),
      r.segments = parent ++ [last] ∧
      p.segments = parent ++ [last ++ List.replicate (n + 1) 'x'] ∧
      p.chars = r.chars ++ List.replicate (n + 1) 'x' := by
  have hne : r.segments ≠ [] := fun hnil => h (eq_of_segments hnil)
  obtain ⟨parent, last, hr⟩ : ∃ parent last, r.segments = parent ++ [last] :=
    ⟨_, _, (List.dropLast_append_getLast hne).symm⟩
  have hsegments := hr ▸ r.isSegment
  have hlast := hsegments last (by simp)
  have hstretched : Path.IsSegment (last ++ List.replicate (n + 1) 'x') := by
    have hx : 'x' ∈ last ++ List.replicate (n + 1) 'x' := by simp
    refine ⟨List.ne_nil_of_mem hx, fun hdot => ?_, fun hdots => ?_, ?_⟩
    · rw [hdot] at hx
      exact absurd hx (by decide)
    · rw [hdots] at hx
      exact absurd hx (by decide)
    · rw [List.mem_append, not_or]
      exact ⟨hlast.no_slash, fun hslash => absurd (List.eq_of_mem_replicate hslash) (by decide)⟩
  refine ⟨⟨parent ++ [last ++ List.replicate (n + 1) 'x'], ?_⟩, parent, last, hr, rfl, ?_⟩
  · intro s hs
    rcases List.mem_append.mp hs with hs | hs
    · exact hsegments s (List.mem_append_left _ hs)
    · rw [List.mem_singleton.mp hs]
      exact hstretched
  · rw [chars_eq_slashed hne, chars_eq_slashed (by simp), hr, slashed_append, slashed_append]
    simp [slashed]

/-- A path above another one, other than the root, has the shorter text. -/
theorem length_chars_lt {r p : AbsPath} (hr : r ≠ root) {parent : List (List Char)}
    {last : List Char} (hp : p.segments = parent ++ [last]) (h : r.segments <+: parent) :
    r.chars.length < p.chars.length := by
  have hne : r.segments ≠ [] := fun hnil => hr (eq_of_segments hnil)
  obtain ⟨more, rfl⟩ := h
  rw [chars_eq_slashed hne, chars_eq_slashed (by simp [hp]), hp, slashed_append, slashed_append]
  simp [slashed]

end AbsPath

namespace PolicyEngine

variable (engine : PolicyEngine)

/-- Some allowed root is the path or one of its ancestors. -/
def Covers (path : AbsPath) : Prop :=
  ∃ root ∈ engine.workspaces.allowedRoots, (engine.cwd.resolve root).Contains path

/-- No path is let in that no root contains. -/
def Strict : Prop :=
  engine.workspaces.allowedRoots = [] ∨
    (∃ root ∈ engine.workspaces.allowedRoots, engine.cwd.resolve root = .root) ∨
    (∃ limit, engine.workspaces.maxPathDepth = some limit ∧ limit.truthy = true ∧
      JsNumber.le 1 limit = false) ∧ ∀ path, engine.FirstFit path "" → engine.Covers path

variable {engine}

/-- A path that fits a root, is one step below every root that it fits, and in none. -/
theorem exists_stranger (hne : engine.workspaces.allowedRoots ≠ [])
    (hroot : ∀ root ∈ engine.workspaces.allowedRoots, engine.cwd.resolve root ≠ .root) :
    ∃ path, ¬engine.Covers path ∧
      (∃ root ∈ engine.workspaces.allowedRoots, engine.Fits path root) ∧
      ∀ root ∈ engine.workspaces.allowedRoots, engine.Fits path root →
        engine.relDepth path root = 1 := by
  set roots := engine.workspaces.allowedRoots
  let size (root : String) : Nat := (engine.cwd.resolve root).chars.length
  -- the sibling of the shortest root, with a segment that is longer than all roots
  obtain ⟨least, hleast, hmin⟩ := roots.toFinset.exists_min_image size
    (List.toFinset_nonempty_iff roots |>.mpr hne)
  rw [List.mem_toFinset] at hleast
  let n := roots.toFinset.sup size
  have hsize (root : String) (h : root ∈ roots) : size least ≤ size root ∧ size root ≤ n :=
    ⟨hmin root (List.mem_toFinset.mpr h), Finset.le_sup (List.mem_toFinset.mpr h)⟩
  obtain ⟨path, parent, last, hsegments, hpath, hchars⟩ :=
    AbsPath.exists_stretched (hroot least hleast) n
  have hlength : n < path.chars.length := by
    rw [hchars, List.length_append, List.length_replicate]
    omega
  refine ⟨path, ?_, ⟨least, hleast, AbsPath.chars_prefix_iff.mp ⟨_, hchars.symm⟩⟩, ?_⟩
  · rintro ⟨root, hmem, hcontains⟩
    obtain ⟨hle, hlt⟩ := hsize root hmem
    rw [AbsPath.Contains, hpath, List.prefix_concat_iff] at hcontains
    rcases hcontains with heq | hprefix
    · have hsame : engine.cwd.resolve root = path := AbsPath.eq_of_segments (heq.trans hpath.symm)
      simp only [size, hsame] at hlt
      omega
    · have hlt := AbsPath.length_chars_lt (hroot root hmem) hsegments hprefix
      exact absurd hle (not_le.mpr hlt)
  · intro root hmem _
    obtain ⟨hle, hlt⟩ := hsize root hmem
    have hdrop : path.chars.drop (size root) =
        List.replicate (n + 1 - (size root - size least)) 'x' := by
      rw [hchars, List.drop_append, List.drop_eq_nil_of_le hle, List.nil_append,
        List.drop_replicate]
    rw [relDepth, hdrop, AbsPath.partCount_replicate (by decide) (by omega)]

theorem one_le_of_le {n : Nat} {limit : JsNumber} (hn : 1 ≤ n)
    (h : JsNumber.le (n : JsNumber) limit = true) : JsNumber.le 1 limit = true := by
  cases limit with
  | finite q =>
    have hle : (n : ℚ) ≤ q := of_decide_eq_true h
    have hone : ((1 : Nat) : ℚ) ≤ n := Nat.cast_le.mpr hn
    exact decide_eq_true (hone.trans hle)
  | posInf => rfl
  | negInf | nan => cases h

/-- A sibling is one step below, or more. -/
theorem one_le_of_sibling {r p : AbsPath} (h : r.Sibling p) :
    1 ≤ p.segments.length + 1 - r.segments.length := by
  obtain ⟨parent, last, ext, more, -, hr, hp⟩ := h
  simp only [hr, hp, List.length_append, List.length_cons, List.length_nil]
  omega

/-- What no root contains is kept out if and only if there is no root, or one contains everything,
or a limit below one keeps out all that is below a root or beside it. -/
theorem strict_iff (engine : PolicyEngine) :
    (∀ workspacePath, (engine.checkWorkspace workspacePath).allowed = true →
      engine.Covers (engine.cwd.resolve workspacePath)) ↔ engine.Strict := by
  constructor
  · intro h
    by_cases hne : engine.workspaces.allowedRoots = []
    · exact .inl hne
    by_cases hroot : ∃ root ∈ engine.workspaces.allowedRoots, engine.cwd.resolve root = .root
    · exact .inr (.inl hroot)
    push Not at hroot
    have hadmits (path : AbsPath) (hallowed : (engine.checkWorkspace path.text).allowed = true) :
        engine.Covers path := by
      have hcovers := h path.text hallowed
      rwa [AbsPath.resolve_text] at hcovers
    simp only [checkWorkspace_allowed_iff (AbsPath.resolve_text _ _)] at hadmits
    obtain ⟨stranger, hstranger, hfits, hdepth⟩ := exists_stranger hne hroot
    obtain ⟨root, hfirst⟩ := exists_firstFit_iff.mpr hfits
    have hrefused : ¬(engine.workspaces.maxPathDepth.all (fun d => !d.truthy) = true ∨
        engine.FitsWithin engine.depthLimit stranger root) := fun hallowed =>
      hstranger (hadmits stranger ⟨root, hfirst, hallowed.imp_right .inr⟩)
    rw [not_or] at hrefused
    obtain ⟨hon, hfar⟩ := hrefused
    refine .inr (.inr ⟨?_, fun path hempty => hadmits path ⟨"", hempty, .inr (.inl rfl)⟩⟩)
    cases hlimit : engine.workspaces.maxPathDepth with
    | none =>
      rw [hlimit] at hon
      exact absurd rfl hon
    | some limit =>
      refine ⟨limit, rfl, by simpa [hlimit] using hon, ?_⟩
      obtain ⟨before, after, hroots, hfit, -⟩ := hfirst
      rw [← le_relDepth_iff hfit, hdepth root (by simp [hroots]) hfit, depthLimit, hlimit] at hfar
      exact Bool.eq_false_iff.mpr hfar
  · intro hstrict workspacePath hallowed
    obtain ⟨root, hfirst, hwhy⟩ := (checkWorkspace_allowed_iff rfl).mp hallowed
    have hfirst' := hfirst
    obtain ⟨before, after, hroots, -⟩ := hfirst'
    rcases hstrict with hnil | ⟨top, htop, hroot⟩ | ⟨⟨limit, hlimit, hon, hone⟩, hempty⟩
    · simp [hnil] at hroots
    · exact ⟨top, htop, hroot ▸ List.nil_prefix⟩
    · rcases hwhy with hoff | rfl | ⟨hcontains, -⟩ | ⟨hsibling, hwithin⟩
      · simp [hlimit, hon] at hoff
      · exact hempty _ hfirst
      · exact ⟨root, by simp [hroots], hcontains⟩
      · rw [depthLimit, hlimit, Option.getD_some] at hwithin
        rw [one_le_of_le (one_le_of_sibling hsibling) hwithin] at hone
        cases hone

end PolicyEngine

end KirkForge
