import KirkForge.Orchestrator.WriteContainment

/-!
# Agreement of the path checks

`safeRelativePath` and `isInsideCwd` (`path-safety.ts`) accept the same paths: those that resolve to
something strictly below the working directory. Here the working directory is any absolute path, as
it is written.
-/

namespace KirkForge

open KirkForge.Path AbsPath

/-- `path.resolve(cwd, path)` for an absolute `cwd`. -/
def resolveFrom (cwd path : String) : AbsPath :=
  AbsPath.root.resolve (if Text.startsWith path "/" then path else cwd ++ "/" ++ path)

def safeRelativePath (cwd userPath : String) (allowHidden : Bool) : Option String :=
  if userPath = "" ∨ Text.trim userPath = "" then none
  else
    let resolved := resolveFrom cwd userPath
    let rel := (AbsPath.root.resolve cwd).relative resolved
    if rel = "" || rel = ".." || Text.startsWith rel "../" || Text.startsWith rel "/" then none
    else if !allowHidden && (Text.split '/' rel).any fun seg =>
        Text.startsWith seg "." && seg != "." && seg != ".." then none
    else some rel

variable {cwd userPath rel : String} {dir p : AbsPath} {allowHidden : Bool}

theorem startsWith_slash_iff {s : String} :
    Text.startsWith s "/" = true ↔ s.toList.head? = some '/' := by
  rw [Text.startsWith, show "/".toList = ['/'] from rfl]
  cases s.toList with
  | nil => decide
  | cons c cs =>
    rw [List.isPrefixOf_cons_cons, List.isPrefixOf_nil_left, Bool.and_true, beq_iff_eq,
      List.head?_cons, Option.some.injEq, eq_comm]

/-- Resolving from the text of a directory is resolving in the directory. -/
theorem resolveFrom_eq (hcwd : Text.startsWith cwd "/" = true) (path : String) :
    resolveFrom cwd path = (AbsPath.root.resolve cwd).resolve path := by
  apply eq_of_segments_eq
  rw [resolveFrom, segments_resolve, segments_resolve]
  by_cases habs : Text.startsWith path "/" = true
  · rw [if_pos habs, if_pos (startsWith_slash_iff.mp habs), if_pos (startsWith_slash_iff.mp habs)]
  · have hhead := startsWith_slash_iff.mp hcwd
    have htext : (cwd ++ "/" ++ path).toList = cwd.toList ++ '/' :: path.toList := by
      simp [String.toList_append]
    rw [if_neg habs, if_neg (mt startsWith_slash_iff.mpr habs), htext, List.splitOn_append_cons_self,
      List.foldl_append, segments_resolve, if_pos hhead, List.head?_append, hhead, Option.some_or,
      if_pos rfl, List.reverse_reverse]

/-- The segments of the relative path are those below the directory. -/
theorem split_relative {s : List Char} {rest : List (List Char)}
    (h : p.segments = dir.segments ++ s :: rest) :
    Text.split '/' (dir.relative p) = (s :: rest).map String.ofList := by
  rw [relative_of_inside h, Text.split, String.toList_ofList]
  congr 1
  refine List.splitOn_intercalate '/' ?_ (List.cons_ne_nil _ _)
  exact fun t ht => (isSegment_of_inside h t ht).no_slash

/-- No part of the relative path begins with a dot. -/
def Visible (rel : String) : Prop := ∀ seg ∈ Text.split '/' rel, Text.startsWith seg "." = false

/-- Below a directory there are no dots alone, so each part with a dot in front is hidden. -/
theorem any_hidden_iff (h : p.Inside dir) :
    (Text.split '/' (dir.relative p)).any (fun seg =>
      Text.startsWith seg "." && seg != "." && seg != "..") = false ↔ Visible (dir.relative p) := by
  obtain ⟨s, rest, h⟩ := h
  rw [Visible, List.any_eq_false, split_relative h]
  refine forall₂_congr fun seg hseg => ?_
  obtain ⟨t, ht, rfl⟩ := List.mem_map.mp hseg
  have hsegment := isSegment_of_inside h t ht
  have hdot : String.ofList t ≠ "." := fun hdot => hsegment.ne_dot (String.ofList_inj.mp hdot)
  have hdots : String.ofList t ≠ ".." := fun hdots => hsegment.ne_dots (String.ofList_inj.mp hdots)
  simp [hdot, hdots]

theorem safeRelativePath_eq_some_iff (hblank : Text.trim userPath ≠ "") :
    safeRelativePath cwd userPath allowHidden = some rel ↔
      (resolveFrom cwd userPath).Inside (AbsPath.root.resolve cwd) ∧
        rel = (AbsPath.root.resolve cwd).relative (resolveFrom cwd userPath) ∧
        (allowHidden = false → Visible rel) := by
  have hempty : ¬(userPath = "" ∨ Text.trim userPath = "") := by
    rintro (rfl | h)
    · exact hblank rfl
    · exact hblank h
  rw [safeRelativePath, if_neg hempty]
  generalize AbsPath.root.resolve cwd = dir
  generalize resolveFrom cwd userPath = p
  have hcheck : isInsideCwd p dir = true ↔ p.Inside dir := isInsideCwd_iff
  rw [isInsideCwd, Bool.not_eq_true'] at hcheck
  dsimp only at hcheck ⊢
  by_cases hinside : p.Inside dir
  · rw [if_neg (Bool.eq_false_iff.mp (hcheck.mpr hinside)), and_iff_right hinside]
    have hvisible := any_hidden_iff hinside
    cases allowHidden with
    | true => simp [eq_comm]
    | false =>
      by_cases hhidden : Visible (dir.relative p)
      · rw [hvisible.mpr hhidden]
        simp only [Bool.not_false, Bool.and_false, Bool.false_eq_true, if_false, Option.some.injEq]
        constructor
        · rintro rfl
          exact ⟨rfl, fun _ => hhidden⟩
        · exact fun h => h.1.symm
      · rw [eq_true_of_ne_false (mt hvisible.mp hhidden)]
        refine iff_of_false (by rintro ⟨⟩) ?_
        rintro ⟨rfl, h⟩
        exact hhidden (h rfl)
  · rw [if_pos (eq_true_of_ne_false (mt hcheck.mp hinside))]
    exact iff_of_false (by rintro ⟨⟩) fun h => hinside h.1

/-- For a path that is not blank the checks agree, and what is accepted leads to the same place. -/
theorem path_checks_agree (cwd userPath : String) (hcwd : Text.startsWith cwd "/" = true)
    (hblank : Text.trim userPath ≠ "") :
    let dir := AbsPath.root.resolve cwd
    let resolved := resolveFrom cwd userPath
    ((safeRelativePath cwd userPath true).isSome = true ↔ isInsideCwd resolved dir = true) ∧
      (isInsideCwd resolved dir = true ↔ resolved.Inside dir) ∧
      ((safeRelativePath cwd userPath false).isSome = true ↔
        isInsideCwd resolved dir = true ∧ Visible (dir.relative resolved)) ∧
      ∀ allowHidden rel, safeRelativePath cwd userPath allowHidden = some rel →
        resolveFrom cwd rel = resolved := by
  intro dir resolved
  refine ⟨?_, isInsideCwd_iff, ?_, ?_⟩
  · rw [isInsideCwd_iff, Option.isSome_iff_exists]
    simp only [safeRelativePath_eq_some_iff hblank]
    simp [dir, resolved]
  · rw [isInsideCwd_iff, Option.isSome_iff_exists]
    simp only [safeRelativePath_eq_some_iff hblank]
    simp [dir, resolved]
  · intro allowHidden rel hrel
    obtain ⟨hinside, rfl, -⟩ := (safeRelativePath_eq_some_iff hblank).mp hrel
    rw [resolveFrom_eq hcwd, resolve_relative hinside]

/-- A name with two dots in front is below the directory, a sibling is not. -/
theorem path_checks_agree_on_dots :
    (safeRelativePath "/work/" "./..notes" true).isSome = true ∧
      safeRelativePath "/work/" "../workshop/a" true = none := by
  have hdots := (path_checks_agree "/work/" "./..notes" (by decide) (by decide)).1
  have hsibling := (path_checks_agree "/work/" "../workshop/a" (by decide) (by decide)).1
  refine ⟨hdots.mpr (by decide), ?_⟩
  rw [← Option.not_isSome_iff_eq_none, hsibling]
  decide

end KirkForge
