import KirkForge.Theory.Lists
import Mathlib.Data.List.Infix

/-!
# Paths

The functions `normalize` and `resolve` of a POSIX path library. A resolved path is the list of its
segments, none of them empty, a dot or two dots; its text is each segment after a slash. The text of
one resolved path is the beginning of another's either because the segments are, or because the last
segment of the first is only the beginning of a segment of the second.
-/

namespace KirkForge.Path

/-- Take the next segment of a path, with the segments kept so far in reverse order. -/
def addSegment (allowAboveRoot : Bool) (kept : List (List Char)) (segment : List Char) :
    List (List Char) :=
  if segment = [] ∨ segment = ['.'] then kept
  else if segment = ['.', '.'] then
    match kept with
    | last :: rest =>
      if last ≠ ['.', '.'] then rest else if allowAboveRoot then segment :: kept else kept
    | [] => if allowAboveRoot then [segment] else []
  else segment :: kept

/-- The segments of `normalizeString(path, allowAboveRoot)`. -/
def normalSegments (path : List Char) (allowAboveRoot : Bool) : List (List Char) :=
  ((path.splitOn '/').foldl (addSegment allowAboveRoot) []).reverse

/-- `path.normalize(path)`. -/
def normalize (path : String) : String :=
  if path = "" then "."
  else
    let isAbsolute := path.toList.head? = some '/'
    let trailingSeparator := path.toList.getLast? = some '/'
    let normal := ['/'].intercalate (normalSegments path.toList !isAbsolute)
    if normal = [] then
      if isAbsolute then "/" else if trailingSeparator then "./" else "."
    else
      String.ofList ((if isAbsolute then ['/'] else []) ++ normal ++
        if trailingSeparator then ['/'] else [])

example : normalize "/a//b/../c/./" = "/a/c/" ∧ normalize "../x/.." = ".." := by decide

/-- A segment that a resolved path may have. -/
structure IsSegment (s : List Char) : Prop where
  ne_nil : s ≠ []
  ne_dot : s ≠ ['.']
  ne_dots : s ≠ ['.', '.']
  no_slash : '/' ∉ s

instance (s : List Char) : Decidable (IsSegment s) :=
  decidable_of_iff (s ≠ [] ∧ s ≠ ['.'] ∧ s ≠ ['.', '.'] ∧ '/' ∉ s)
    ⟨fun h => ⟨h.1, h.2.1, h.2.2.1, h.2.2.2⟩, fun h => ⟨h.1, h.2, h.3, h.4⟩⟩

theorem not_mem_of_mem_splitOn {α : Type*} [DecidableEq α] {a : α} {l segment : List α}
    (h : segment ∈ l.splitOn a) : a ∉ segment := by
  induction l generalizing segment with
  | nil =>
    rw [List.splitOn_nil, List.mem_singleton] at h
    rw [h]
    exact List.not_mem_nil
  | cons x l ih =>
    rw [List.splitOn_cons_eq_if_modifyHead] at h
    split at h
    · rcases List.mem_cons.mp h with rfl | h
      · exact List.not_mem_nil
      · exact ih h
    · next hx =>
      cases hl : l.splitOn a with
      | nil => exact absurd hl (List.splitOn_ne_nil a l)
      | cons s rest =>
        rw [hl, List.modifyHead_cons] at h
        rw [hl] at ih
        rcases List.mem_cons.mp h with rfl | h
        · rw [List.mem_cons, not_or]
          exact ⟨fun hax => hx (by simp [hax]), ih (List.mem_cons_self ..)⟩
        · exact ih (List.mem_cons_of_mem s h)

/-- Below the root no segment leads upwards. -/
theorem addSegment_isSegment {kept : List (List Char)} {segment : List Char}
    (hkept : ∀ s ∈ kept, IsSegment s) (hslash : '/' ∉ segment) :
    ∀ s ∈ addSegment false kept segment, IsSegment s := by
  unfold addSegment
  split
  · exact hkept
  · next hskip =>
    rw [not_or] at hskip
    split
    · cases kept with
      | nil => exact hkept
      | cons last rest =>
        have hrest : ∀ s ∈ rest, IsSegment s := fun s hs => hkept s (List.mem_cons_of_mem last hs)
        simpa [(hkept last (List.mem_cons_self ..)).ne_dots] using hrest
    · next hdots =>
      exact List.forall_mem_cons.mpr ⟨⟨hskip.1, hskip.2, hdots, hslash⟩, hkept⟩

theorem foldl_addSegment_isSegment {segments kept : List (List Char)}
    (hslash : ∀ s ∈ segments, '/' ∉ s) (hkept : ∀ s ∈ kept, IsSegment s) :
    ∀ s ∈ segments.foldl (addSegment false) kept, IsSegment s := by
  induction segments generalizing kept with
  | nil => exact hkept
  | cons segment segments ih =>
    obtain ⟨h, hslash⟩ := List.forall_mem_cons.mp hslash
    exact ih hslash (addSegment_isSegment hkept h)

theorem addSegment_of_isSegment {s : List Char} (hs : IsSegment s) (kept : List (List Char)) :
    addSegment false kept s = s :: kept := by
  rw [addSegment.eq_def, if_neg (not_or.mpr ⟨hs.ne_nil, hs.ne_dot⟩), if_neg hs.ne_dots]

theorem foldl_addSegment_of_isSegment {segments : List (List Char)}
    (h : ∀ s ∈ segments, IsSegment s) (kept : List (List Char)) :
    segments.foldl (addSegment false) kept = segments.reverse ++ kept := by
  induction segments generalizing kept with
  | nil => rfl
  | cons s segments ih =>
    obtain ⟨hs, h⟩ := List.forall_mem_cons.mp h
    rw [List.foldl_cons, addSegment_of_isSegment hs, ih h, List.reverse_cons, List.append_assoc,
      List.singleton_append]

end Path

/-- An absolute path without empty segments, dots or double dots. -/
structure AbsPath where
  segments : List (List Char)
  isSegment : ∀ s ∈ segments, Path.IsSegment s
  deriving DecidableEq

namespace AbsPath

open KirkForge.Path

def root : AbsPath := ⟨[], fun _ hs => absurd hs List.not_mem_nil⟩

/-- Each segment after a slash. -/
def slashed (segments : List (List Char)) : List Char := segments.flatMap fun s => '/' :: s

/-- The characters of the path as the library prints it. -/
def chars (p : AbsPath) : List Char := '/' :: ['/'].intercalate p.segments

def text (p : AbsPath) : String := String.ofList p.chars

/-- `path.resolve(path)` in the working directory `cwd`. -/
def resolve (cwd : AbsPath) (path : String) : AbsPath :=
  let resolved :=
    if path.toList.head? = some '/' then path.toList else cwd.chars ++ '/' :: path.toList
  ⟨normalSegments resolved false, fun s hs =>
    foldl_addSegment_isSegment (fun _ hs => not_mem_of_mem_splitOn hs)
      (fun _ h => absurd h List.not_mem_nil) s (List.mem_reverse.mp hs)⟩

example : (resolve root "/work/../etc//./x/").text = "/etc/x" := by decide

theorem intercalate_cons_eq (s : List Char) (segments : List (List Char)) :
    ['/'].intercalate (s :: segments) = s ++ slashed segments := by
  induction segments generalizing s with
  | nil => simp [slashed]
  | cons t segments ih =>
    rw [List.intercalate_cons_cons, ih]
    simp [slashed]

theorem chars_eq_slashed {p : AbsPath} (h : p.segments ≠ []) : p.chars = slashed p.segments := by
  cases hp : p.segments with
  | nil => exact absurd hp h
  | cons s segments => rw [chars, hp, intercalate_cons_eq]; rfl

/-- Splitting a text at its slashes gives back what stands between them. -/
theorem splitOn_slashed {s : List Char} {segments : List (List Char)} (hs : '/' ∉ s)
    (h : ∀ t ∈ segments, IsSegment t) : (s ++ slashed segments).splitOn '/' = s :: segments := by
  rw [← intercalate_cons_eq]
  refine List.splitOn_intercalate '/' ?_ (List.cons_ne_nil s segments)
  exact List.forall_mem_cons.mpr ⟨hs, fun t ht => (h t ht).no_slash⟩

/-- A resolved path is its own resolution. -/
theorem resolve_text (cwd p : AbsPath) : resolve cwd p.text = p := by
  obtain ⟨segments, h⟩ := p
  have habs : (text ⟨segments, h⟩).toList = '/' :: ['/'].intercalate segments := by
    rw [text, String.toList_ofList, chars]
  have hnormal : normalSegments ('/' :: ['/'].intercalate segments) false = segments := by
    cases segments with
    | nil => decide
    | cons s segments =>
      have hsplit := splitOn_slashed (s := []) List.not_mem_nil h
      rw [List.nil_append, slashed, List.flatMap_cons, List.cons_append, ← slashed] at hsplit
      rw [normalSegments, intercalate_cons_eq, hsplit, List.foldl_cons,
        foldl_addSegment_of_isSegment h]
      simp [addSegment]
  simp only [resolve, habs, List.head?_cons, if_pos, hnormal]

/-! ### When one text begins another -/

/-- The last segment of `r` is the beginning of a longer segment of `p`, below the same parent. -/
def Sibling (r p : AbsPath) : Prop :=
  ∃ parent last ext more, ext ≠ [] ∧ r.segments = parent ++ [last] ∧
    p.segments = parent ++ (last ++ ext) :: more

/-- `r` is `p` or one of its ancestors. -/
def Contains (r p : AbsPath) : Prop := r.segments <+: p.segments

theorem Sibling.not_contains {r p : AbsPath} (h : Sibling r p) : ¬Contains r p := by
  obtain ⟨parent, last, ext, more, hext, hr, hp⟩ := h
  rintro ⟨rest, hrest⟩
  rw [hr, hp, List.append_assoc] at hrest
  have hlast := (List.cons.inj (List.append_cancel_left hrest)).1
  exact hext (List.self_eq_append_right.mp hlast)

/-- The number of non-empty parts between the slashes of a text. -/
def partCount (text : List Char) : Nat := ((text.splitOn '/').filter (· ≠ [])).length

theorem partCount_append_slashed {s : List Char} {segments : List (List Char)} (hs : '/' ∉ s)
    (h : ∀ t ∈ segments, IsSegment t) :
    partCount (s ++ slashed segments) = segments.length + if s = [] then 0 else 1 := by
  have hfilter : segments.filter (· ≠ []) = segments :=
    List.filter_eq_self.mpr fun t ht => decide_eq_true (h t ht).ne_nil
  rw [partCount, splitOn_slashed hs h, List.filter_cons, hfilter]
  by_cases hnil : s = []
  · simp [hnil]
  · simp [hnil]

theorem partCount_replicate {c : Char} {n : Nat} (hc : c ≠ '/') (hn : 0 < n) :
    partCount (List.replicate n c) = 1 := by
  have hslash : '/' ∉ List.replicate n c := fun h => hc (List.eq_of_mem_replicate h).symm
  have hne : List.replicate n c ≠ [] := mt (List.replicate_eq_nil_iff c).mp hn.ne'
  have hcount := partCount_append_slashed hslash (List.forall_mem_nil _)
  rw [slashed, List.flatMap_nil, List.append_nil, if_neg hne] at hcount
  exact hcount

theorem slashed_eq_nil_or (segments : List (List Char)) :
    slashed segments = [] ∨ ∃ l, slashed segments = '/' :: l := by
  cases segments with
  | nil => exact .inl rfl
  | cons s segments => exact .inr ⟨s ++ slashed segments, rfl⟩

/-- A text without slashes is determined by what it is followed by up to the next slash. -/
theorem append_inj_of_no_slash {s t l m : List Char} (hs : '/' ∉ s) (ht : '/' ∉ t)
    (hl : ∃ l', l = '/' :: l') (hm : m = [] ∨ ∃ m', m = '/' :: m') (h : s ++ l = t ++ m) :
    s = t ∧ l = m := by
  obtain ⟨l, rfl⟩ := hl
  rcases hm with rfl | ⟨m, rfl⟩
  · have hmem : '/' ∈ t := by
      rw [← List.append_nil t, ← h]
      simp
    exact absurd hmem ht
  · obtain ⟨rfl, rfl⟩ := (Lists.append_cons_inj hs ht).mp h
    exact ⟨rfl, rfl⟩

/-- How the slashed text of `rs` can begin that of `ps`, and what is left over. -/
theorem slashed_append_eq {rs ps : List (List Char)} {rest : List Char} (hne : rs ≠ [])
    (hrs : ∀ s ∈ rs, IsSegment s) (hps : ∀ s ∈ ps, IsSegment s)
    (h : slashed rs ++ rest = slashed ps) :
    (∃ more, ps = rs ++ more ∧ rest = slashed more) ∨
      ∃ parent last ext more, ext ≠ [] ∧ rs = parent ++ [last] ∧
        ps = parent ++ (last ++ ext) :: more ∧ rest = ext ++ slashed more := by
  induction rs generalizing ps with
  | nil => exact absurd rfl hne
  | cons s rs ih =>
    cases ps with
    | nil => exact absurd h (List.cons_ne_nil _ _)
    | cons t ps =>
      have hs : '/' ∉ s := (hrs s (List.mem_cons_self ..)).no_slash
      have ht : '/' ∉ t := (hps t (List.mem_cons_self ..)).no_slash
      have h : s ++ (slashed rs ++ rest) = t ++ slashed ps := by
        simpa [slashed] using h
      cases rs with
      | nil =>
        -- the last segment of `rs` may end inside `t`
        rcases List.append_eq_append_iff.mp h with ⟨ext, hc, hrest⟩ | ⟨c, hc, hps'⟩
        · by_cases hext : ext = []
          · exact .inl ⟨ps, by simp [hc, hext], by simpa [hext, slashed] using hrest⟩
          · exact .inr ⟨[], s, ext, ps, hext, rfl, by simp [hc], by simpa [slashed] using hrest⟩
        · cases c with
          | nil => exact .inl ⟨ps, by simp [hc], by simpa [slashed] using hps'.symm⟩
          | cons x c =>
            rcases slashed_eq_nil_or ps with hnil | ⟨l, hl⟩
            · exact absurd (hnil.symm.trans hps') (List.cons_ne_nil _ _).symm
            · have hx : '/' = x := (List.cons.inj (hl.symm.trans hps')).1
              exact absurd (by rw [hc, ← hx]; simp) hs
      | cons s' rs =>
        obtain ⟨rfl, htail⟩ := append_inj_of_no_slash hs ht ⟨s' ++ slashed rs ++ rest, rfl⟩
          (slashed_eq_nil_or ps) h
        rcases ih (List.cons_ne_nil s' rs) (List.forall_mem_cons.mp hrs).2
            (List.forall_mem_cons.mp hps).2 htail with
          ⟨more, hps, hrest⟩ | ⟨parent, last, ext, more, hext, hrs, hps, hrest⟩
        · exact .inl ⟨more, by rw [hps]; rfl, hrest⟩
        · exact .inr ⟨s :: parent, last, ext, more, hext, by rw [hrs]; rfl, by rw [hps]; rfl, hrest⟩

/-- The two ways in which the text of `r` begins that of `p`, with the parts left over. -/
theorem chars_append_eq {r p : AbsPath} {rest : List Char} (h : r.chars ++ rest = p.chars) :
    (Contains r p ∧ partCount rest + r.segments.length = p.segments.length) ∨
      (Sibling r p ∧ partCount rest + r.segments.length = p.segments.length + 1) := by
  by_cases hr : r.segments = []
  · refine .inl ⟨by rw [Contains, hr]; exact List.nil_prefix, ?_⟩
    have hrest : rest = ['/'].intercalate p.segments := by
      simpa [chars, hr] using h
    cases hp : p.segments with
    | nil => simp [hrest, hp, hr, partCount]
    | cons s segments =>
      have hps := List.forall_mem_cons.mp (hp ▸ p.isSegment)
      rw [hrest, hp, intercalate_cons_eq, partCount_append_slashed hps.1.no_slash hps.2,
        if_neg hps.1.ne_nil, hr]
      rfl
  · have hp : p.segments ≠ [] := by
      intro hp
      rw [chars_eq_slashed hr, chars, hp] at h
      cases hrs : r.segments with
      | nil => exact hr hrs
      | cons s segments =>
        have hs := (List.forall_mem_cons.mp (hrs ▸ r.isSegment)).1.ne_nil
        simp [hrs, slashed, hs] at h
    rw [chars_eq_slashed hr, chars_eq_slashed hp] at h
    rcases slashed_append_eq hr r.isSegment p.isSegment h with
      ⟨more, hps, hrest⟩ | ⟨parent, last, ext, more, hext, hrs, hps, hrest⟩
    · have hmore : ∀ s ∈ more, IsSegment s := fun s hs =>
        p.isSegment s (hps ▸ List.mem_append_right _ hs)
      have hcount := partCount_append_slashed (s := []) List.not_mem_nil hmore
      refine .inl ⟨⟨more, hps.symm⟩, ?_⟩
      rw [hrest, hps, List.length_append, ← List.nil_append (slashed more), hcount, if_pos rfl]
      omega
    · have hsegments := hps ▸ p.isSegment
      have hmore : ∀ s ∈ more, IsSegment s := fun s hs =>
        hsegments s (List.mem_append_right _ (List.mem_cons_of_mem _ hs))
      have hslash : '/' ∉ ext := fun hx =>
        (hsegments (last ++ ext) (by simp)).no_slash (List.mem_append_right _ hx)
      refine .inr ⟨⟨parent, last, ext, more, hext, hrs, hps⟩, ?_⟩
      rw [hrest, partCount_append_slashed hslash hmore, if_neg hext, hrs, hps]
      simp only [List.length_append, List.length_cons, List.length_nil]
      omega

theorem slashed_append (ss ts : List (List Char)) :
    slashed (ss ++ ts) = slashed ss ++ slashed ts := List.flatMap_append

/-- The text of `r` begins that of `p` for a containing path and for a sibling, never else. -/
theorem chars_prefix_iff {r p : AbsPath} : r.chars <+: p.chars ↔ Contains r p ∨ Sibling r p := by
  constructor
  · rintro ⟨rest, h⟩
    exact (chars_append_eq h).imp And.left And.left
  · rintro (⟨more, h⟩ | ⟨parent, last, ext, more, -, hr, hp⟩)
    · by_cases hr : r.segments = []
      · exact ⟨['/'].intercalate p.segments, by simp [chars, hr]⟩
      · have hp : p.segments ≠ [] := by simp [← h, hr]
        exact ⟨slashed more, by rw [chars_eq_slashed hr, chars_eq_slashed hp, ← h, slashed_append]⟩
    · refine ⟨ext ++ slashed more, ?_⟩
      rw [chars_eq_slashed (by simp [hr]), chars_eq_slashed (by simp [hp]), hr, hp, slashed_append,
        slashed_append]
      simp [slashed]

end AbsPath

end KirkForge
