import KirkForge.Theory.Path

/-!
# Relative paths

The functions `relative` and `basename` of a POSIX path library. From a directory the relative path
to something below it is the rest of its segments; to everything else it is empty or begins with two
dots, and resolving a relative path leads back. What a resolved path has below its working directory
are parts of the path that was resolved.
-/

namespace KirkForge

namespace Path

/-- The segments of the relative path: up to the common ancestor, then down. -/
def relativeSegments : List (List Char) → List (List Char) → List (List Char)
  | s :: ss, t :: ts =>
    if s = t then relativeSegments ss ts else (s :: ss).map (fun _ => ['.', '.']) ++ t :: ts
  | ss, ts => ss.map (fun _ => ['.', '.']) ++ ts

/-- `path.basename(path)`: the last part between slashes, trailing slashes apart. -/
def basename (path : String) : String :=
  String.ofList (((path.toList.splitOn '/').filter (· ≠ [])).getLastD [])

theorem relativeSegments_append (ss ts : List (List Char)) : relativeSegments ss (ss ++ ts) = ts := by
  induction ss with
  | nil => simp [relativeSegments]
  | cons s ss ih => simp [relativeSegments, ih]

/-- Anything that is not below is reached through the parent directory, or is the directory. -/
theorem relativeSegments_of_not_prefix {ss ts : List (List Char)} (h : ¬ss <+: ts) :
    ∃ more, relativeSegments ss ts = ['.', '.'] :: more := by
  induction ss generalizing ts with
  | nil => exact absurd List.nil_prefix h
  | cons s ss ih =>
    cases ts with
    | nil => exact ⟨_, rfl⟩
    | cons t ts =>
      by_cases hst : s = t
      · subst hst
        rw [List.cons_prefix_cons, not_and] at h
        obtain ⟨more, hmore⟩ := ih (h rfl)
        exact ⟨more, by rw [relativeSegments, if_pos rfl, hmore]⟩
      · exact ⟨_, by rw [relativeSegments, if_neg hst, List.map_cons, List.cons_append]⟩

/-- What the segments of a path leave of those kept before, and what they add. -/
theorem foldl_addSegment_eq (segments kept : List (List Char)) :
    ∃ added n, (∀ s ∈ added, s ∈ segments) ∧
      segments.foldl (addSegment false) kept = added ++ kept.drop n := by
  induction segments generalizing kept with
  | nil => exact ⟨[], 0, by simp, rfl⟩
  | cons segment segments ih =>
    obtain ⟨added, n, hadded, heq⟩ := ih (addSegment false kept segment)
    rw [List.foldl_cons, heq]
    have hstep : addSegment false kept segment = kept ∨
        addSegment false kept segment = kept.drop 1 ∨
        addSegment false kept segment = segment :: kept := by
      unfold addSegment
      split
      · exact .inl rfl
      · split
        · cases kept with
          | nil => exact .inl rfl
          | cons last rest =>
            by_cases hlast : last = ['.', '.']
            · exact .inl (by simp [hlast])
            · exact .inr (.inl (by simp [hlast]))
        · exact .inr (.inr rfl)
    rcases hstep with h | h | h
    · exact ⟨added, n, fun s hs => List.mem_cons_of_mem _ (hadded s hs), by rw [h]⟩
    · exact ⟨added, 1 + n, fun s hs => List.mem_cons_of_mem _ (hadded s hs), by
        rw [h, List.drop_drop]⟩
    · cases n with
      | zero =>
        refine ⟨added ++ [segment], 0, fun s hs => ?_, by rw [h]; simp⟩
        rcases List.mem_append.mp hs with hs | hs
        · exact List.mem_cons_of_mem _ (hadded s hs)
        · exact List.mem_cons.mpr (.inl (List.mem_singleton.mp hs))
      | succ n =>
        exact ⟨added, n, fun s hs => List.mem_cons_of_mem _ (hadded s hs), by
          rw [h, List.drop_succ_cons]⟩

end Path

namespace AbsPath

open KirkForge.Path

/-- `path.relative(from, to)` -/
def relative (source target : AbsPath) : String :=
  String.ofList (['/'].intercalate (relativeSegments source.segments target.segments))

/-- The path is below the directory, segment by segment, and is not the directory. -/
def Inside (p cwd : AbsPath) : Prop := ∃ s rest, p.segments = cwd.segments ++ s :: rest

/-- The segments of a resolution: those of the working directory first. -/
theorem segments_resolve (cwd : AbsPath) (path : String) :
    (cwd.resolve path).segments = ((path.toList.splitOn '/').foldl (addSegment false)
      (if path.toList.head? = some '/' then [] else cwd.segments.reverse)).reverse := by
  by_cases habs : path.toList.head? = some '/'
  · simp only [resolve, normalSegments, habs, if_true]
  · have hcwd := congrArg segments (resolve_text cwd cwd)
    simp only [resolve, text, String.toList_ofList, chars, List.head?_cons, if_true,
      normalSegments] at hcwd
    simp only [resolve, normalSegments, if_neg habs, List.splitOn_append_cons_self,
      List.foldl_append, chars]
    rw [List.reverse_eq_iff.mp hcwd]

/-- The segments below the working directory are parts of the path. -/
theorem mem_splitOn_of_resolve {cwd : AbsPath} {path : String} {rest : List (List Char)}
    (h : (cwd.resolve path).segments = cwd.segments ++ rest) {s : List Char} (hs : s ∈ rest) :
    s ∈ path.toList.splitOn '/' := by
  obtain ⟨added, n, hadded, heq⟩ := foldl_addSegment_eq (path.toList.splitOn '/')
    (if path.toList.head? = some '/' then [] else cwd.segments.reverse)
  rw [segments_resolve, heq, List.reverse_append] at h
  have hlen : rest.length ≤ added.reverse.length := by
    have hlen := congrArg List.length h
    have hkept : ((if path.toList.head? = some '/' then []
        else cwd.segments.reverse).drop n).length ≤ cwd.segments.length := by
      split <;> simp
    simp only [List.length_append, List.length_reverse] at hlen ⊢
    omega
  have hsuffix : rest <:+ added.reverse :=
    List.suffix_of_suffix_length_le ⟨cwd.segments, h.symm⟩ (List.suffix_append _ _) hlen
  exact hadded s (List.mem_reverse.mp (hsuffix.subset hs))

/-- A path of plain segments leads down. -/
theorem segments_resolve_intercalate (cwd : AbsPath) {rest : List (List Char)} (hne : rest ≠ [])
    (h : ∀ s ∈ rest, IsSegment s) :
    (cwd.resolve (String.ofList (['/'].intercalate rest))).segments = cwd.segments ++ rest := by
  obtain ⟨s, rest, rfl⟩ := List.exists_cons_of_ne_nil hne
  obtain ⟨hs, hrest⟩ := List.forall_mem_cons.mp h
  rw [segments_resolve, String.toList_ofList, intercalate_cons_eq, splitOn_slashed hs.no_slash hrest,
    foldl_addSegment_of_isSegment h]
  have hhead : ¬(s ++ slashed rest).head? = some '/' := by
    intro hslash
    obtain ⟨c, s, rfl⟩ := List.exists_cons_of_ne_nil hs.ne_nil
    obtain rfl := Option.some.inj hslash
    exact hs.no_slash (List.mem_cons_self ..)
  rw [if_neg hhead, List.reverse_append, List.reverse_reverse, List.reverse_reverse]

section Inside

variable {cwd p : AbsPath} {s : List Char} {rest : List (List Char)}

theorem isSegment_of_inside (h : p.segments = cwd.segments ++ s :: rest) :
    ∀ t ∈ s :: rest, IsSegment t :=
  fun t ht => p.isSegment t (h ▸ List.mem_append_right _ ht)

theorem relative_of_inside (h : p.segments = cwd.segments ++ s :: rest) :
    cwd.relative p = String.ofList (['/'].intercalate (s :: rest)) := by
  rw [relative, h, relativeSegments_append]

theorem eq_of_segments_eq {p q : AbsPath} (h : p.segments = q.segments) : p = q := by
  cases p
  cases q
  cases h
  rfl

/-- The relative path leads back. -/
theorem resolve_relative (h : Inside p cwd) : cwd.resolve (cwd.relative p) = p := by
  obtain ⟨s, rest, h⟩ := h
  have hsegments := segments_resolve_intercalate cwd (List.cons_ne_nil s rest)
    (isSegment_of_inside h)
  rw [← relative_of_inside h, ← h] at hsegments
  exact eq_of_segments_eq hsegments

/-- The directory itself and what is not below it, by their relative paths. -/
theorem relative_of_not_inside (h : ¬Inside p cwd) :
    cwd.relative p = "" ∨ cwd.relative p = ".." ∨
      ∃ l, cwd.relative p = String.ofList ('.' :: '.' :: '/' :: l) := by
  by_cases hprefix : cwd.segments <+: p.segments
  · obtain ⟨rest, hrest⟩ := hprefix
    cases rest with
    | nil =>
      left
      rw [relative, ← hrest, relativeSegments_append]
      rfl
    | cons s rest => exact absurd ⟨s, rest, hrest.symm⟩ h
  · obtain ⟨more, hmore⟩ := relativeSegments_of_not_prefix hprefix
    rw [relative, hmore, intercalate_cons_eq]
    cases more with
    | nil => exact .inr (.inl rfl)
    | cons s more => exact .inr (.inr ⟨_, rfl⟩)

end Inside

end AbsPath

end KirkForge

/-!
## Up, down and aside

A relative path between any two places leads up to what they have in common and down from there, and
resolving it leads back. A suffix on the text of a path makes a path beside it of it.
-/

namespace KirkForge

namespace Path

/-- Up from what is below the common part, then down to what is below it. -/
theorem relativeSegments_eq (ss ts : List (List Char)) : ∃ common up down,
    ss = common ++ up ∧ ts = common ++ down ∧
      relativeSegments ss ts = List.replicate up.length ['.', '.'] ++ down := by
  induction ss generalizing ts with
  | nil => exact ⟨[], [], ts, rfl, rfl, by simp [relativeSegments]⟩
  | cons s ss ih =>
    cases ts with
    | nil =>
      refine ⟨[], s :: ss, [], rfl, rfl, ?_⟩
      simp [relativeSegments, List.replicate_succ, List.map_const']
    | cons t ts =>
      by_cases hst : s = t
      · obtain ⟨common, up, down, hs, ht, heq⟩ := ih ts
        exact ⟨s :: common, up, down, by rw [hs, List.cons_append],
          by rw [ht, hst, List.cons_append], by rw [relativeSegments, if_pos hst, heq]⟩
      · exact ⟨[], s :: ss, t :: ts, rfl, rfl, by
          rw [relativeSegments, if_neg hst, List.map_const', List.length_cons]⟩

theorem foldl_addSegment_dots {kept : List (List Char)} (h : ∀ s ∈ kept, IsSegment s) (n : Nat) :
    (List.replicate n ['.', '.']).foldl (addSegment false) kept = kept.drop n := by
  induction n generalizing kept with
  | zero => rfl
  | succ n ih =>
    rw [List.replicate_succ, List.foldl_cons]
    cases kept with
    | nil => simpa [addSegment] using ih h
    | cons last rest =>
      obtain ⟨hlast, hrest⟩ := List.forall_mem_cons.mp h
      have hstep : addSegment false (last :: rest) ['.', '.'] = rest := by
        simp [addSegment, hlast.ne_dots]
      rw [hstep, ih hrest, List.drop_succ_cons]

end Path

namespace AbsPath

open KirkForge.Path

/-- A path that leads up and then down. -/
theorem segments_resolve_dots (cwd : AbsPath) (n : Nat) {down : List (List Char)}
    (hdown : ∀ s ∈ down, IsSegment s) :
    (cwd.resolve (String.ofList
      (['/'].intercalate (List.replicate n ['.', '.'] ++ down)))).segments =
        cwd.segments.take (cwd.segments.length - n) ++ down := by
  have hkept : ∀ s ∈ cwd.segments.reverse, IsSegment s := fun s hs =>
    cwd.isSegment s (List.mem_reverse.mp hs)
  have hfold : ((List.replicate n ['.', '.'] ++ down).foldl (addSegment false)
      cwd.segments.reverse).reverse = cwd.segments.take (cwd.segments.length - n) ++ down := by
    rw [List.foldl_append, foldl_addSegment_dots hkept, foldl_addSegment_of_isSegment hdown,
      List.reverse_append, List.reverse_reverse, List.drop_reverse, List.reverse_reverse]
  have hslash : ∀ s ∈ List.replicate n ['.', '.'] ++ down, '/' ∉ s := by
    intro s hs
    obtain hs | hs := List.mem_append.mp hs
    · rw [List.eq_of_mem_replicate hs]
      decide
    · exact (hdown s hs).no_slash
  have hne : ∀ s ∈ List.replicate n ['.', '.'] ++ down, s ≠ [] := by
    intro s hs
    obtain hs | hs := List.mem_append.mp hs
    · rw [List.eq_of_mem_replicate hs]
      exact List.cons_ne_nil _ _
    · exact (hdown s hs).ne_nil
  rw [segments_resolve, String.toList_ofList]
  cases hlist : List.replicate n ['.', '.'] ++ down with
  | nil =>
    rw [hlist] at hfold
    simpa [addSegment] using hfold
  | cons s rest =>
    rw [hlist] at hslash hne hfold
    have hhead : (['/'].intercalate (s :: rest)).head? ≠ some '/' := by
      rw [intercalate_cons_eq]
      obtain ⟨c, s', rfl⟩ := List.exists_cons_of_ne_nil (hne s List.mem_cons_self)
      rintro heq
      obtain rfl := Option.some.inj heq
      exact hslash _ List.mem_cons_self List.mem_cons_self
    rw [if_neg hhead, List.splitOn_intercalate '/' hslash (List.cons_ne_nil s rest), hfold]

/-- The relative path leads back, to wherever it is. -/
theorem resolve_relative_eq (cwd p : AbsPath) : cwd.resolve (cwd.relative p) = p := by
  obtain ⟨common, up, down, hcwd, hp, heq⟩ := relativeSegments_eq cwd.segments p.segments
  have hdown : ∀ s ∈ down, IsSegment s := fun s hs =>
    p.isSegment s (hp ▸ List.mem_append_right _ hs)
  apply eq_of_segments_eq
  rw [relative, heq, segments_resolve_dots cwd _ hdown, hp, hcwd]
  simp

/-! ### Parents, and texts that are continued -/

/-- `path.dirname(path)` of a resolved path. -/
def dirname (p : AbsPath) : AbsPath where
  segments := p.segments.dropLast
  isSegment s hs := p.isSegment s (List.mem_of_mem_dropLast hs)

@[simp] theorem segments_dirname (p : AbsPath) : p.dirname.segments = p.segments.dropLast := rfl

/-- The path with a suffix, as the file system takes it. -/
def withSuffix (p : AbsPath) (suffix : String) : AbsPath := root.resolve (p.text ++ suffix)

/-- A suffix that makes a name of every name, and is one. -/
structure IsSuffix (suffix : String) : Prop where
  no_slash : '/' ∉ suffix.toList
  long : 2 < suffix.toList.length

instance (suffix : String) : Decidable (IsSuffix suffix) :=
  decidable_of_iff ('/' ∉ suffix.toList ∧ 2 < suffix.toList.length)
    ⟨fun h => ⟨h.1, h.2⟩, fun h => ⟨h.1, h.2⟩⟩

theorem IsSuffix.isSegment {suffix : String} (h : IsSuffix suffix) {s : List Char}
    (hs : '/' ∉ s) : IsSegment (s ++ suffix.toList) := by
  have hlong : 2 < (s ++ suffix.toList).length := by
    rw [List.length_append]
    exact Nat.lt_add_left _ h.long
  refine ⟨?_, ?_, ?_, fun hmem => (List.mem_append.mp hmem).elim hs h.no_slash⟩
  all_goals
    intro heq
    rw [heq] at hlong
    exact absurd hlong (by decide)

theorem intercalate_concat_append (front : List (List Char)) (last suffix : List Char) :
    ['/'].intercalate (front ++ [last]) ++ suffix =
      ['/'].intercalate (front ++ [last ++ suffix]) := by
  induction front with
  | nil => simp
  | cons s front ih =>
    rw [List.cons_append, List.cons_append, intercalate_cons_eq, intercalate_cons_eq,
      List.append_assoc]
    congr 1
    simp [slashed]

variable {p : AbsPath} {front : List (List Char)} {last : List Char} {suffix : String}

/-- A suffix continues the last segment. -/
theorem segments_withSuffix (hp : p.segments = front ++ [last]) (h : IsSuffix suffix) :
    (p.withSuffix suffix).segments = front ++ [last ++ suffix.toList] := by
  have hparts := List.forall_mem_append.mp (hp ▸ p.isSegment)
  have hlast := hparts.2 last (List.mem_singleton_self last)
  let q : AbsPath := ⟨front ++ [last ++ suffix.toList], List.forall_mem_append.mpr
    ⟨hparts.1, List.forall_mem_singleton.mpr (h.isSegment hlast.no_slash)⟩⟩
  have htext : p.text ++ suffix = q.text := by
    apply String.toList_inj.mp
    rw [String.toList_append, text, text, String.toList_ofList, String.toList_ofList, chars, chars,
      hp, List.cons_append, intercalate_concat_append]
  rw [withSuffix, htext, resolve_text]

theorem segments_root_withSuffix (h : IsSuffix suffix) :
    (root.withSuffix suffix).segments = [suffix.toList] := by
  let q : AbsPath := ⟨[suffix.toList], List.forall_mem_singleton.mpr
    (h.isSegment List.not_mem_nil)⟩
  have htext : root.text ++ suffix = q.text := by
    apply String.toList_inj.mp
    rw [String.toList_append, text, text, String.toList_ofList, String.toList_ofList, chars, chars]
    simp [q, root]
  rw [withSuffix, htext, resolve_text]

end AbsPath

end KirkForge
