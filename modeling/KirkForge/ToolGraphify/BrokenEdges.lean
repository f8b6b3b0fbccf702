import KirkForge.ToolGraphify.ImportResolution

/-!
# Broken edges

Which edges the graph verifier counts as broken, for every directory tree, and when these are the
imports that mean no file of the project (`brokenExactly_iff`).
-/

namespace KirkForge.Graphify

variable {α : Type} (disk : FileSystem (List Char) α) (cwd base : AbsPath)

/-! ### What makes an edge a good one -/

/-- What a relative import leads to is in the directory of installed packages. -/
def Vendored : Prop := ∃ s rest, base.segments = cwd.segments ++ nodeModules :: s :: rest

/-- The names below the working directory. -/
def below? : Option (List (List Char)) :=
  if cwd.segments <+: base.segments then some (base.segments.drop cwd.segments.length) else none

/-- The paths that are tried, once the edge is collected and once it is filtered. -/
def tried : List AbsPath :=
  if hasExtension (cwd.relative base) then base :: (extended base ++ indexFiles base.dirname)
  else extended base ++ indexFiles base.dirname ++ extended (base.withSuffix ".ts")

/-- The paths of which one has to exist. A name that begins with two dots counts as a way out, and
what means the working directory itself is looked for in it under the name `.ts`. -/
def lookedAt : List AbsPath :=
  match below? cwd base with
  | none => []
  | some [] =>
    if cwd.segments = [] then tried cwd base
    else if (tryResolveExtension disk base).isSome then []
    else cwd.resolve ".ts" :: (extended (cwd.resolve ".ts") ++ indexFiles cwd)
  | some [name] =>
    if ¬Dotted name then tried cwd base
    else if hasExtension (cwd.relative base) || (extended base).any (existsSync disk) then []
    else indexFiles base.dirname
  | some (dir :: _ :: _) => if Dotted dir then [] else tried cwd base

def Accepted : Prop := Vendored cwd base ∨ ∃ p ∈ lookedAt disk cwd base, existsSync disk p = true

/-- The path that the edge of a relative import names. -/
def edgePath : AbsPath :=
  if hasExtension (cwd.relative base) then base
  else (tryResolveExtension disk base).getD (base.withSuffix ".ts")

variable {disk cwd base} {p : AbsPath} {rest : List (List Char)}

theorem below?_eq_some : below? cwd base = some rest ↔ base.segments = cwd.segments ++ rest := by
  rw [below?]
  split
  · next h =>
    obtain ⟨t, ht⟩ := h
    rw [← ht, List.drop_left, Option.some.injEq, List.append_cancel_left_eq]
  · next h => exact iff_of_false nofun fun heq => h ⟨rest, heq.symm⟩

theorem below?_eq_none : below? cwd base = none ↔ ¬base.Inside cwd ∧ base ≠ cwd := by
  constructor
  · intro h
    have hnone (rest : List (List Char)) : base.segments ≠ cwd.segments ++ rest := fun heq => by
      rw [below?_eq_some.mpr heq] at h
      cases h
    exact ⟨fun ⟨s, rest, heq⟩ => hnone _ heq, fun heq => hnone [] (by rw [heq, List.append_nil])⟩
  · rintro ⟨hin, hne⟩
    cases h : below? cwd base with
    | none => rfl
    | some rest =>
      have heq := below?_eq_some.mp h
      cases rest with
      | nil => exact absurd (AbsPath.eq_of_segments_eq (by rw [heq, List.append_nil])) hne
      | cons s rest => exact absurd ⟨s, rest, heq⟩ hin

/-! ### The path of the edge -/

theorem withSuffix_mem_extended (base : AbsPath) : base.withSuffix ".ts" ∈ extended base :=
  List.mem_map_of_mem (by decide)

/-- The edge names the path itself, what is found for it, or a source that there may be none of. -/
theorem edgePath_cases (disk : FileSystem (List Char) α) (cwd base : AbsPath) :
    hasExtension (cwd.relative base) = true ∧ edgePath disk cwd base = base ∨
      hasExtension (cwd.relative base) = false ∧
        (tryResolveExtension disk base = some (edgePath disk cwd base) ∨
          tryResolveExtension disk base = none ∧
            edgePath disk cwd base = base.withSuffix ".ts") := by
  rw [edgePath]
  split
  · next h => exact .inl ⟨h, rfl⟩
  · next h =>
    refine .inr ⟨Bool.not_eq_true _ ▸ h, ?_⟩
    cases hw : tryResolveExtension disk base with
    | some w => exact .inl rfl
    | none => exact .inr ⟨rfl, rfl⟩

theorem dirname_of_beside (h : Beside base p) : p.dirname = base.dirname := by
  obtain ⟨last, hp⟩ := h
  exact AbsPath.eq_of_segments_eq (by rw [AbsPath.segments_dirname, hp, List.dropLast_concat])

theorem beside_self (h : base.segments ≠ []) : Beside base base :=
  ⟨base.segments.getLast h, by rw [AbsPath.segments_dirname, List.dropLast_append_getLast]⟩

theorem not_hasExtension_empty : hasExtension "" = false := by decide

variable (disk) in
theorem beside_edgePath (hrest : base.segments = cwd.segments ++ rest) :
    Beside base (edgePath disk cwd base) := by
  obtain ⟨hext, heq⟩ | ⟨-, hw | ⟨-, heq⟩⟩ := edgePath_cases disk cwd base
  · rw [heq]
    refine beside_self fun hnil => ?_
    obtain ⟨-, rfl⟩ := List.append_eq_nil_iff.mp (hrest.symm.trans hnil)
    rw [relative_append hrest] at hext
    exact absurd hext (Bool.eq_false_iff.mp not_hasExtension_empty)
  · exact .of_tryResolveExtension hw
  · rw [heq]
    exact beside_of_mem_extended (withSuffix_mem_extended base)

theorem exists_mem_append_iff {p : AbsPath → Prop} {l m : List AbsPath} :
    (∃ q ∈ l ++ m, p q) ↔ (∃ q ∈ l, p q) ∨ ∃ q ∈ m, p q := by
  simp only [List.mem_append, or_and_right, exists_or]

/-- The filter looks again from the path of the edge. -/
theorem exists_tried_iff (hrest : base.segments = cwd.segments ++ rest) :
    (∃ p ∈ tried cwd base, existsSync disk p = true) ↔
      existsSync disk (edgePath disk cwd base) = true ∨
        (tryResolveExtension disk (edgePath disk cwd base)).isSome = true := by
  rw [tryResolveExtension_isSome, dirname_of_beside (beside_edgePath disk hrest), tried]
  obtain ⟨hext, heq⟩ | ⟨hext, hw | ⟨hw, heq⟩⟩ := edgePath_cases disk cwd base
  · rw [heq, if_pos hext, List.exists_mem_cons_iff, exists_mem_append_iff]
  · rw [if_neg (Bool.eq_false_iff.mp hext), exists_mem_append_iff, exists_mem_append_iff,
      ← tryResolveExtension_isSome, hw]
    exact iff_of_true (.inl rfl) (.inl (of_tryResolveExtension hw).1)
  · have hnone := Option.not_isSome_iff_eq_none.mpr hw
    rw [tryResolveExtension_isSome] at hnone
    obtain ⟨hextended, hindex⟩ := not_or.mp hnone
    have hedge : ¬existsSync disk (base.withSuffix ".ts") = true := fun h =>
      hextended ⟨_, withSuffix_mem_extended base, h⟩
    rw [heq, if_neg (Bool.eq_false_iff.mp hext), exists_mem_append_iff, exists_mem_append_iff,
      or_iff_right hnone, or_iff_right hedge, or_iff_left hindex]

/-- Below the working directory the edge names its path. -/
theorem edgeTo_eq (hrest : base.segments = cwd.segments ++ rest)
    (hne : rest = [] → cwd.segments = []) :
    edgeTo disk cwd base = cwd.relative (edgePath disk cwd base) := by
  rw [edgeTo, edgePath]
  split
  · rfl
  · split
    · next hw => rw [hw, Option.getD_some]
    · next hw =>
      rw [hw, Option.getD_none]
      have hts : ".ts".toList = ['.', 't', 's'] := rfl
      apply String.toList_inj.mp
      obtain rfl | ⟨front, last, rfl⟩ := List.eq_nil_or_concat' rest
      · have hcwd := hne rfl
        have hbase : base = AbsPath.root :=
          AbsPath.eq_of_segments_eq (by rw [hrest, hcwd]; rfl)
        have hempty : cwd.relative AbsPath.root = String.ofList (['/'].intercalate []) :=
          relative_append (by rw [hcwd]; rfl)
        have hroot := AbsPath.segments_root_withSuffix isSuffix_ts
        rw [hbase, hempty, relative_append (by rw [hroot, hcwd, List.nil_append])]
        simp
      · rw [← List.append_assoc] at hrest
        have hwith := AbsPath.segments_withSuffix hrest isSuffix_ts
        rw [List.append_assoc] at hwith hrest
        rw [relative_append hrest, relative_append hwith, String.toList_append, hts,
          String.toList_ofList, String.toList_ofList, AbsPath.intercalate_concat_append]

theorem isBroken_edgePath {e : EdgeInfo} (hto : e.to = edgeTo disk cwd base)
    (hrest : base.segments = cwd.segments ++ rest) (hne : rest = [] → cwd.segments = [])
    {s : List Char} {more : List (List Char)}
    (hpath : (edgePath disk cwd base).segments = cwd.segments ++ s :: more) :
    isBroken disk cwd e = true ↔ ¬(s = nodeModules ∧ more ≠ []) ∧
      (Dotted s ∨ ¬∃ p ∈ tried cwd base, existsSync disk p = true) := by
  rw [isBroken_inside (hto.trans (edgeTo_eq hrest hne)) hpath, exists_tried_iff hrest]

theorem not_dotted_of_mem_indexFiles {dir : AbsPath} (h : p ∈ indexFiles dir) :
    ∃ name, p.segments = dir.segments ++ [name] ∧ ¬Dotted name := by
  obtain ⟨name, hname, hp⟩ := segments_of_mem_indexFiles h
  have hnames : ∀ name ∈ ["index.ts", "index.tsx", "index.js"], ¬Dotted name.toList := by
    decide
  exact ⟨_, hp, hnames name hname⟩

variable (disk cwd base) in
/-- An index file beside what the import means is found for it. -/
def FoundBeside : Prop := hasExtension (cwd.relative base) = false ∧
  (∀ p ∈ extended base, ¬existsSync disk p = true) ∧
    ∃ p ∈ indexFiles base.dirname, existsSync disk p = true

/-- Unless an index file beside what the import means is found for it, the edge names the path
itself, or the path with an extension. -/
theorem edgePath_place (disk : FileSystem (List Char) α) (cwd base : AbsPath) :
    FoundBeside disk cwd base ∧ edgePath disk cwd base ∈ indexFiles base.dirname ∨
      ¬FoundBeside disk cwd base ∧
        (hasExtension (cwd.relative base) = true ∧ edgePath disk cwd base = base ∨
          edgePath disk cwd base ∈ extended base) := by
  obtain ⟨hext, heq⟩ | ⟨hext, hw | ⟨hw, heq⟩⟩ := edgePath_cases disk cwd base
  · exact .inr ⟨fun h => Bool.eq_false_iff.mp h.1 hext, .inl ⟨hext, heq⟩⟩
  · obtain ⟨hexists, hmem | ⟨hnone, hmem⟩⟩ := of_tryResolveExtension hw
    · exact .inr ⟨fun h => h.2.1 _ hmem hexists, .inr hmem⟩
    · exact .inl ⟨⟨hext, hnone, _, hmem, hexists⟩, hmem⟩
  · refine .inr ⟨fun h => ?_, .inr (heq ▸ withSuffix_mem_extended base)⟩
    have hsome := tryResolveExtension_isSome.mpr (.inr h.2.2)
    rw [hw] at hsome
    cases hsome

variable (disk) in
/-- The name that the edge has directly in the working directory. -/
theorem edge_name {name : List Char} (hbase : base.segments = cwd.segments ++ [name]) :
    ∃ s, (edgePath disk cwd base).segments = cwd.segments ++ [s] ∧
      (Dotted s ↔ Dotted name ∧ ¬FoundBeside disk cwd base) := by
  have hdir : base.dirname.segments = cwd.segments := by
    rw [AbsPath.segments_dirname, hbase, List.dropLast_concat]
  have hname : Path.IsSegment name :=
    base.isSegment name (hbase ▸ List.mem_append_right _ List.mem_cons_self)
  obtain ⟨hfound, hmem⟩ | ⟨hfound, ⟨-, heq⟩ | hmem⟩ := edgePath_place disk cwd base
  · obtain ⟨s, hsegments, hs⟩ := not_dotted_of_mem_indexFiles hmem
    exact ⟨s, hdir ▸ hsegments, iff_of_false hs fun h => h.2 hfound⟩
  · exact ⟨name, by rw [heq, hbase], (and_iff_left hfound).symm⟩
  · obtain ⟨ext, -, hsegments⟩ := segments_of_mem_extended hmem
    rw [hdir, hbase, List.getLastD_concat] at hsegments
    refine ⟨_, hsegments, ?_⟩
    rw [dotted_append hname, and_iff_left hfound]

variable (disk) in
/-- In the root directory the edge of an import of it has a name without two dots in front. -/
theorem edge_name_root (hbase : base.segments = cwd.segments ++ []) (hcwd : cwd.segments = []) :
    ∃ s, (edgePath disk cwd base).segments = cwd.segments ++ [s] ∧ ¬Dotted s := by
  have hroot : base.segments = [] := by rw [hbase, hcwd, List.append_nil]
  have hdir : base.dirname.segments = cwd.segments := by
    rw [AbsPath.segments_dirname, hroot, hcwd, List.dropLast_nil]
  obtain ⟨-, hmem⟩ | ⟨-, ⟨hext, -⟩ | hmem⟩ := edgePath_place disk cwd base
  · obtain ⟨s, hsegments, hs⟩ := not_dotted_of_mem_indexFiles hmem
    exact ⟨s, hdir ▸ hsegments, hs⟩
  · rw [relative_append hbase] at hext
    exact absurd hext (Bool.eq_false_iff.mp not_hasExtension_empty)
  · have hall : ∀ ext ∈ RESOLVABLE_EXTENSIONS, ¬Dotted ext.toList := by decide
    obtain ⟨ext, hext, hsegments⟩ := segments_of_mem_extended hmem
    rw [hdir, hroot, List.getLastD_nil, List.nil_append] at hsegments
    exact ⟨_, hsegments, hall ext hext⟩

/-! ### By the place of what is meant -/

theorem vendored_iff (hrest : base.segments = cwd.segments ++ rest) :
    Vendored cwd base ↔ ∃ s more, rest = nodeModules :: s :: more := by
  simp only [Vendored, hrest, List.append_cancel_left_eq]

theorem not_vendored (hrest : base.segments = cwd.segments ++ rest) (h : rest.length < 2) :
    ¬Vendored cwd base := by
  rw [vendored_iff hrest]
  rintro ⟨s, more, rfl⟩
  rw [List.length_cons, List.length_cons] at h
  omega

section
variable {e : EdgeInfo}

theorem isBroken_of_outside_iff (hto : e.to = edgeTo disk cwd base) (h : below? cwd base = none) :
    isBroken disk cwd e = true ↔ ¬Accepted disk cwd base := by
  obtain ⟨hin, hne⟩ := below?_eq_none.mp h
  refine iff_of_true (isBroken_of_outside hto hin hne) ?_
  rw [Accepted, lookedAt, h]
  rintro (⟨s, more, hbase⟩ | ⟨p, hp, -⟩)
  · exact hin ⟨_, _, hbase⟩
  · cases hp

theorem isBroken_of_root_iff (hto : e.to = edgeTo disk cwd base)
    (hbase : base.segments = cwd.segments ++ []) (hcwd : cwd.segments = []) :
    isBroken disk cwd e = true ↔ ¬Accepted disk cwd base := by
  have hnot : ¬Vendored cwd base := not_vendored hbase (by simp)
  obtain ⟨s, hpath, hs⟩ := edge_name_root disk hbase hcwd
  have hlooked : lookedAt disk cwd base = tried cwd base := by
    rw [lookedAt, below?_eq_some.mpr hbase]
    exact if_pos hcwd
  rw [isBroken_edgePath hto hbase (fun _ => hcwd) hpath, Accepted, hlooked, or_iff_right hnot,
    or_iff_right hs, and_iff_right fun h => h.2 rfl]

theorem isBroken_of_top_iff (hto : e.to = edgeTo disk cwd base)
    (hbase : base.segments = cwd.segments ++ []) (hcwd : cwd.segments ≠ []) :
    isBroken disk cwd e = true ↔ ¬Accepted disk cwd base := by
  have hnot : ¬Vendored cwd base := not_vendored hbase (by simp)
  obtain rfl : base = cwd := AbsPath.eq_of_segments_eq (by rw [hbase, List.append_nil])
  have hext : hasExtension (base.relative base) = false := by
    rw [relative_append hbase]
    exact not_hasExtension_empty
  have hlooked : lookedAt disk base base = if (tryResolveExtension disk base).isSome then []
      else base.resolve ".ts" :: (extended (base.resolve ".ts") ++ indexFiles base) := by
    rw [lookedAt, below?_eq_some.mpr hbase]
    exact if_neg hcwd
  rw [Accepted, or_iff_right hnot, hlooked]
  rw [edgeTo, if_neg (Bool.eq_false_iff.mp hext)] at hto
  cases hw : tryResolveExtension disk base with
  | some w =>
    rw [hw] at hto
    have hin : ¬base.Inside base := by
      rintro ⟨s, more, h⟩
      have hlength := congrArg List.length h
      simp at hlength
    have hbroken : isBroken disk base e = true := isBroken_of_not_inside hto
      ((Beside.of_tryResolveExtension hw).not_inside (fun h => absurd h hcwd) hin)
    exact iff_of_true hbroken (by rintro ⟨p, hp, -⟩; cases hp)
  | none =>
    have hts : Path.IsSegment ".ts".toList := by decide
    have hsegments := segments_resolve_name hts base
    rw [String.ofList_toList] at hsegments
    have hto' : e.to = base.relative (base.resolve ".ts") := by
      rw [hto, hw, relative_append hbase, relative_append hsegments]
      rfl
    have hdir : (base.resolve ".ts").dirname = base :=
      AbsPath.eq_of_segments_eq (by rw [AbsPath.segments_dirname, hsegments, List.dropLast_concat])
    have hdots : ¬Dotted ".ts".toList := by decide
    rw [isBroken_inside hto' hsegments, tryResolveExtension_isSome, hdir, or_iff_right hdots,
      and_iff_right fun h => h.2 rfl, Option.isSome_none, if_neg (by decide),
      List.exists_mem_cons_iff, exists_mem_append_iff]

theorem isBroken_of_name_iff (hto : e.to = edgeTo disk cwd base) {name : List Char}
    (hbase : base.segments = cwd.segments ++ [name]) :
    isBroken disk cwd e = true ↔ ¬Accepted disk cwd base := by
  have hnot : ¬Vendored cwd base := not_vendored hbase (by simp)
  obtain ⟨s, hpath, hs⟩ := edge_name disk hbase
  have hindex : FoundBeside disk cwd base → ∃ p ∈ tried cwd base, existsSync disk p = true := by
    rintro ⟨hext, -, hindex⟩
    rw [tried, if_neg (Bool.eq_false_iff.mp hext), exists_mem_append_iff, exists_mem_append_iff]
    exact .inl (.inr hindex)
  rw [isBroken_edgePath hto hbase nofun hpath, Accepted, or_iff_right hnot, hs,
    and_iff_right fun h => h.2 rfl]
  by_cases hdots : Dotted name
  · have hlooked : (∃ p ∈ lookedAt disk cwd base, existsSync disk p = true) ↔
        FoundBeside disk cwd base := by
      rw [lookedAt, below?_eq_some.mpr hbase]
      dsimp only
      rw [if_neg (not_not_intro hdots), FoundBeside]
      split
      · next h =>
        refine iff_of_false nofun fun hfound => ?_
        obtain hext | hany := Bool.or_eq_true_iff.mp h
        · exact Bool.eq_false_iff.mp hfound.1 hext
        · obtain ⟨p, hp, hexists⟩ := List.any_eq_true.mp hany
          exact hfound.2.1 p hp hexists
      · next h =>
        rw [Bool.or_eq_true_iff, not_or, List.any_eq_true] at h
        rw [and_iff_right (Bool.not_eq_true _ ▸ h.1),
          and_iff_right fun p hp hexists => h.2 ⟨p, hp, hexists⟩]
    rw [hlooked, and_iff_right hdots]
    exact ⟨fun h hfound => h.elim (· hfound) (· (hindex hfound)), .inl⟩
  · have hlooked : lookedAt disk cwd base = tried cwd base := by
      rw [lookedAt, below?_eq_some.mpr hbase]
      exact if_pos hdots
    rw [hlooked, or_iff_right fun h => hdots h.1]

theorem isBroken_of_deep_iff (hto : e.to = edgeTo disk cwd base) {dir name : List Char}
    (hbase : base.segments = cwd.segments ++ dir :: name :: rest) :
    isBroken disk cwd e = true ↔ ¬Accepted disk cwd base := by
  obtain ⟨last, hpath⟩ := beside_edgePath disk hbase
  have hpath' : (edgePath disk cwd base).segments =
      cwd.segments ++ dir :: ((name :: rest).dropLast ++ [last]) := by
    rw [hpath, AbsPath.segments_dirname, hbase,
      List.dropLast_append_of_ne_nil (List.cons_ne_nil _ _),
      List.dropLast_cons_of_ne_nil (List.cons_ne_nil name rest), List.append_assoc,
      List.cons_append]
  have hvendored : Vendored cwd base ↔ dir = nodeModules := by
    rw [vendored_iff hbase]
    constructor
    · rintro ⟨s, more, heq⟩
      exact (List.cons.inj heq).1
    · rintro rfl
      exact ⟨name, rest, rfl⟩
  rw [isBroken_edgePath hto hbase nofun hpath', Accepted, hvendored,
    and_iff_left (List.append_ne_nil_of_right_ne_nil _ (List.cons_ne_nil _ _)), not_or, lookedAt,
    below?_eq_some.mpr hbase]
  dsimp only
  split
  · next hdots => exact and_congr_right fun _ => iff_of_true (.inl hdots) nofun
  · next hdots => rw [or_iff_right hdots]

/-- Which edges are broken, by what the import leads to and what exists. -/
theorem isBroken_iff_not_accepted (hto : e.to = edgeTo disk cwd base) :
    isBroken disk cwd e = true ↔ ¬Accepted disk cwd base := by
  cases h : below? cwd base with
  | none => exact isBroken_of_outside_iff hto h
  | some rest =>
    have hbase := below?_eq_some.mp h
    match rest, hbase with
    | [], hbase =>
      by_cases hcwd : cwd.segments = []
      · exact isBroken_of_root_iff hto hbase hcwd
      · exact isBroken_of_top_iff hto hbase hcwd
    | [name], hbase => exact isBroken_of_name_iff hto hbase
    | dir :: name :: rest, hbase => exact isBroken_of_deep_iff hto hbase

end

/-! ### When the count is right -/

variable (disk cwd base) in
/-- A file that the import may mean is looked at. -/
def FoundAsMeant : Prop := ∃ p ∈ lookedAt disk cwd base, p ∈ targets base ∧ IsFile disk cwd p

variable (disk cwd base) in
/-- A file that the import may mean is not looked at. -/
def Overlooked : Prop := ∃ p ∈ targets base, p ∉ lookedAt disk cwd base ∧ IsFile disk cwd p

variable (disk cwd base) in
/-- What passes for what the import means is no file that it may mean. -/
def Mistaken : Prop := Vendored cwd base ∨
  ∃ p ∈ lookedAt disk cwd base, existsSync disk p = true ∧ ¬(p ∈ targets base ∧ IsFile disk cwd p)

theorem IsFile.existsSync (h : IsFile disk cwd p) : existsSync disk p = true := by
  obtain ⟨-, id, contents, hp⟩ := h
  rw [Graphify.existsSync, hp]
  rfl

theorem accepted_iff :
    Accepted disk cwd base ↔ FoundAsMeant disk cwd base ∨ Mistaken disk cwd base := by
  constructor
  · rintro (hvendored | ⟨p, hp, hexists⟩)
    · exact .inr (.inl hvendored)
    · by_cases htarget : p ∈ targets base ∧ IsFile disk cwd p
      · exact .inl ⟨p, hp, htarget⟩
      · exact .inr (.inr ⟨p, hp, hexists, htarget⟩)
  · rintro (⟨p, hp, -, hfile⟩ | hvendored | ⟨p, hp, hexists, -⟩)
    · exact .inr ⟨p, hp, hfile.existsSync⟩
    · exact .inl hvendored
    · exact .inr ⟨p, hp, hexists⟩

theorem resolvable_iff :
    Resolvable disk cwd base ↔ FoundAsMeant disk cwd base ∨ Overlooked disk cwd base := by
  constructor
  · rintro ⟨p, hp, hfile⟩
    by_cases hlooked : p ∈ lookedAt disk cwd base
    · exact .inl ⟨p, hlooked, hp, hfile⟩
    · exact .inr ⟨p, hp, hlooked, hfile⟩
  · rintro (⟨p, -, hp, hfile⟩ | ⟨p, hp, -, hfile⟩) <;> exact ⟨p, hp, hfile⟩

/-- The count is right about an import of which a file is found that it means, and about one where
nothing is overlooked and nothing is mistaken. Of the two errors, one hides the other. -/
theorem brokenExactly_iff {spec : String} (h : IsRelative spec) («from» : String)
    (kind : EdgeInfo.Kind) : BrokenExactly disk cwd spec «from» kind ↔
      FoundAsMeant disk cwd (importBase cwd spec «from») ∨
        (Overlooked disk cwd (importBase cwd spec «from») ↔
          Mistaken disk cwd (importBase cwd spec «from»)) := by
  rw [BrokenExactly, isBroken_iff_not_accepted (to_importEdge h kind), not_iff_not, accepted_iff,
    resolvable_iff]
  by_cases hfound : FoundAsMeant disk cwd (importBase cwd spec «from»)
  · exact iff_of_true (iff_of_true (.inl hfound) (.inl hfound)) (.inl hfound)
  · rw [or_iff_right hfound, or_iff_right hfound, or_iff_right hfound]
    exact iff_comm

/-! ### Kinds of errors -/

theorem not_inside_of_mem_indexFiles (hin : ¬base.Inside cwd) (hne : base ≠ cwd)
    (hp : p ∈ indexFiles base) : ¬p.Inside cwd := by
  obtain ⟨name, -, hsegments⟩ := segments_of_mem_indexFiles hp
  rintro ⟨s, rest, hinside⟩
  rw [hsegments] at hinside
  have hbase := congrArg List.dropLast hinside
  rw [List.dropLast_concat, List.dropLast_append_of_ne_nil (List.cons_ne_nil s rest)] at hbase
  cases rest with
  | nil => exact hne (AbsPath.eq_of_segments_eq (hbase.trans (List.append_nil _)))
  | cons t rest =>
    rw [List.dropLast_cons_of_ne_nil (List.cons_ne_nil t rest)] at hbase
    exact hin ⟨s, _, hbase⟩

/-- The count is right about what leads out of the working directory. -/
theorem brokenExactly_of_outside {spec «from» : String} (h : IsRelative spec)
    (kind : EdgeInfo.Kind) (hout : below? cwd (importBase cwd spec «from») = none) :
    BrokenExactly disk cwd spec «from» kind := by
  obtain ⟨hin, hne⟩ := below?_eq_none.mp hout
  refine iff_of_true (isBroken_of_outside (to_importEdge h kind) hin hne) ?_
  have hbeside {p : AbsPath} (hp : Beside (importBase cwd spec «from») p) : ¬p.Inside cwd :=
    hp.not_inside (fun hbase hcwd => hne (AbsPath.eq_of_segments_eq (hbase.trans hcwd.symm))) hin
  rintro ⟨p, hp, hfile, -⟩
  obtain rfl | hp := List.mem_cons.mp hp
  · exact hin hfile
  rw [List.mem_append, List.mem_append] at hp
  obtain (hp | hp) | hp := hp
  · exact hbeside (beside_of_mem_extended hp) hfile
  · exact not_inside_of_mem_indexFiles hin hne hp hfile
  · exact hbeside (beside_of_mem_tsSource hp) hfile

/-- Of what the import may mean, an index file in the directory that it names is not tried, nor is
the source of a script, nor a file without an extension. -/
theorem overlooked_kinds (hp : p ∈ targets base) (hnot : p ∉ tried cwd base) :
    p ∈ indexFiles base ∨ p ∈ tsSource base ∨
      p = base ∧ hasExtension (cwd.relative base) = false := by
  rw [targets, List.mem_cons, List.mem_append, List.mem_append] at hp
  rw [tried] at hnot
  split at hnot
  · rw [List.mem_cons, List.mem_append, not_or, not_or] at hnot
    obtain heq | (hp | hp) | hp := hp
    · exact absurd heq hnot.1
    · exact absurd hp hnot.2.1
    · exact .inl hp
    · exact .inr (.inl hp)
  · next hext =>
    rw [List.mem_append, List.mem_append, not_or, not_or] at hnot
    obtain heq | (hp | hp) | hp := hp
    · exact .inr (.inr ⟨heq, Bool.eq_false_iff.mpr hext⟩)
    · exact absurd hp hnot.1.1
    · exact .inl hp
    · exact .inr (.inl hp)

/-- What passes and is no file that the import may mean is a directory, an index file beside what
the import names, or a file with an extension too many. -/
theorem mistaken_kinds (hin : p.Inside cwd) (hp : p ∈ tried cwd base)
    (hexists : existsSync disk p = true) (hnot : ¬(p ∈ targets base ∧ IsFile disk cwd p)) :
    disk.node p.segments = some .dir ∨ p ∈ indexFiles base.dirname ∨
      p ∈ extended (base.withSuffix ".ts") := by
  have hdir (htarget : p ∈ targets base) : disk.node p.segments = some .dir := by
    rw [existsSync] at hexists
    cases hnode : disk.node p.segments with
    | none =>
      rw [hnode] at hexists
      cases hexists
    | some node =>
      cases node with
      | dir => rfl
      | file id contents => exact absurd ⟨htarget, hin, id, contents, hnode⟩ hnot
  have hextended (hp : p ∈ extended base) : p ∈ targets base :=
    List.mem_cons_of_mem _ (List.mem_append_left _ (List.mem_append_left _ hp))
  rw [tried] at hp
  split at hp
  · obtain rfl | hp := List.mem_cons.mp hp
    · exact .inl (hdir List.mem_cons_self)
    · exact (List.mem_append.mp hp).imp (fun hp => hdir (hextended hp)) .inl
  · obtain hp | hp := List.mem_append.mp hp
    · exact (List.mem_append.mp hp).imp (fun hp => hdir (hextended hp)) .inl
    · exact .inr (.inr hp)

/-! ### A directory that is imported -/

/-- `src/a.ts` and `src/lib/index.ts` under `/p`. -/
def libraryTree : FileSystem (List Char) Unit :=
  let src := ["p".toList, "src".toList]
  let lib := src ++ ["lib".toList]
  ((FileSystem.onlyDirs lib).put src "a.ts".toList 0 () (by decide) (by decide)).put
    lib "index.ts".toList 1 () (by decide) (by decide)

def projectDir : AbsPath := AbsPath.root.resolve "/p"

theorem isFile_libraryTree {s : List Char} {rest : List (List Char)} {id : Nat}
    (hp : p.segments = "p".toList :: s :: rest)
    (hnode : libraryTree.node ("p".toList :: s :: rest) = some (.file id ())) :
    IsFile libraryTree projectDir p := by
  have hcwd : projectDir.segments = ["p".toList] := by decide
  refine ⟨⟨s, rest, ?_⟩, id, (), ?_⟩
  · rw [hp, hcwd]
    rfl
  · rw [hp, hnode]

theorem resolvable_libraryTree :
    Resolvable libraryTree projectDir (importBase projectDir "./lib" "src/a.ts") := by
  have hmem : (importBase projectDir "./lib" "src/a.ts").resolve ("index" ++ ".ts") ∈
      indexFiles (importBase projectDir "./lib" "src/a.ts") := List.mem_map_of_mem (by decide)
  have hsegments :
      ((importBase projectDir "./lib" "src/a.ts").resolve ("index" ++ ".ts")).segments =
        ["p".toList, "src".toList, "lib".toList, "index.ts".toList] := by decide
  exact ⟨_, List.mem_cons_of_mem _ (List.mem_append_left _ (List.mem_append_right _ hmem)),
    isFile_libraryTree hsegments rfl⟩

/-- The edge from the file that imports the directory is counted as broken. -/
theorem index_file_overlooked :
    brokenEdges libraryTree projectDir
        [importEdge libraryTree projectDir "./lib" "src/a.ts" .import] = 1 ∧
      ¬BrokenExactly libraryTree projectDir "./lib" "src/a.ts" .import := by
  have hbroken : isBroken libraryTree projectDir
      (importEdge libraryTree projectDir "./lib" "src/a.ts" .import) = true := by decide
  exact ⟨by decide, fun h => h.mp hbroken resolvable_libraryTree⟩

theorem foundAsMeant_libraryTree :
    FoundAsMeant libraryTree projectDir (importBase projectDir "../a" "src/lib/index.ts") := by
  have hmem := withSuffix_mem_extended (importBase projectDir "../a" "src/lib/index.ts")
  have hsegments : ((importBase projectDir "../a" "src/lib/index.ts").withSuffix ".ts").segments =
      ["p".toList, "src".toList, "a.ts".toList] := by decide
  have hbelow : below? projectDir (importBase projectDir "../a" "src/lib/index.ts") =
      some ["src".toList, "a".toList] := by decide
  have hext : hasExtension (projectDir.relative
      (importBase projectDir "../a" "src/lib/index.ts")) = false := by decide
  refine ⟨_, ?_, List.mem_cons_of_mem _ (List.mem_append_left _ (List.mem_append_left _ hmem)),
    isFile_libraryTree hsegments rfl⟩
  rw [lookedAt, hbelow]
  dsimp only
  rw [if_neg (by decide), tried, if_neg (Bool.eq_false_iff.mp hext)]
  exact List.mem_append_left _ (List.mem_append_left _ hmem)

theorem brokenExactly_source :
    BrokenExactly libraryTree projectDir "../a" "src/lib/index.ts" .import :=
  (brokenExactly_iff (.inr (.inr (.inr (by decide)))) _ _).mpr (.inl foundAsMeant_libraryTree)

end KirkForge.Graphify
