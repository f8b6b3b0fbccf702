import KirkForge.Theory.RelativePath
import KirkForge.Theory.Text

/-!
# Joining paths

The function `join` of a POSIX path library. Normalizing a path before it is resolved makes no
difference, so a join is resolved part by part, each from where the one before it leads. The normal
form of a part is some double dots and then plain segments: without double dots it leads down by
these, with them it drops as many segments first.
-/

namespace KirkForge

namespace Path

/-- `path.join(a, b)` -/
def join (a b : String) : String :=
  if a = "" then normalize b else if b = "" then normalize a else normalize (a ++ "/" ++ b)

/-- The segments of `path.normalize(path)` for a relative path. -/
def relativeNormal (path : String) : List (List Char) := normalSegments path.toList true

/-- How many double dots the normal form begins with. -/
def ups (path : String) : Nat := (relativeNormal path).count ['.', '.']

/-- The plain segments after them. -/
def names (path : String) : List (List Char) := (relativeNormal path).filter (· ≠ ['.', '.'])

/-- A normal form under construction: plain segments above double dots, the last segment first. -/
def IsStack (stack : List (List Char)) : Prop :=
  ∃ plain n, stack = plain ++ List.replicate n ['.', '.'] ∧ ∀ s ∈ plain, IsSegment s

theorem isStack_addSegment {stack : List (List Char)} {segment : List Char} (h : IsStack stack)
    (hslash : '/' ∉ segment) : IsStack (addSegment true stack segment) := by
  obtain ⟨plain, n, rfl, hplain⟩ := h
  unfold addSegment
  split
  · exact ⟨plain, n, rfl, hplain⟩
  · next hskip =>
    rw [not_or] at hskip
    split
    · next hdots =>
      subst hdots
      cases plain with
      | nil =>
        cases n with
        | zero => exact ⟨[], 1, rfl, hplain⟩
        | succ n => exact ⟨[], n + 2, rfl, hplain⟩
      | cons last plain =>
        obtain ⟨hlast, hplain⟩ := List.forall_mem_cons.mp hplain
        exact ⟨plain, n, by simp [hlast.ne_dots], hplain⟩
    · next hdots =>
      refine ⟨segment :: plain, n, rfl, List.forall_mem_cons.mpr ⟨?_, hplain⟩⟩
      exact ⟨hskip.1, hskip.2, hdots, hslash⟩

theorem isStack_foldl {segments stack : List (List Char)} (h : IsStack stack)
    (hslash : ∀ s ∈ segments, '/' ∉ s) : IsStack (segments.foldl (addSegment true) stack) := by
  induction segments generalizing stack with
  | nil => exact h
  | cons segment segments ih =>
    obtain ⟨hsegment, hslash⟩ := List.forall_mem_cons.mp hslash
    exact ih (isStack_addSegment h hsegment) hslash

/-- The normal form of a relative path is some double dots and then plain segments. -/
theorem relativeNormal_eq (path : String) : ∃ n plain,
    relativeNormal path = List.replicate n ['.', '.'] ++ plain ∧ ∀ s ∈ plain, IsSegment s := by
  have hnil : IsStack [] := ⟨[], 0, rfl, fun _ hs => absurd hs List.not_mem_nil⟩
  obtain ⟨plain, n, hstack, hplain⟩ := isStack_foldl hnil
    (fun s hs => not_mem_of_mem_splitOn (l := path.toList) hs)
  refine ⟨n, plain.reverse, ?_, fun s hs => hplain s (List.mem_reverse.mp hs)⟩
  rw [relativeNormal, normalSegments, hstack, List.reverse_append, List.reverse_replicate]

theorem addSegment_of_skip {segment : List Char} (h : segment = [] ∨ segment = ['.'])
    (above : Bool) (kept : List (List Char)) : addSegment above kept segment = kept := by
  rw [addSegment.eq_def, if_pos h]

theorem addSegment_of_name {segment : List Char} (h : ¬(segment = [] ∨ segment = ['.']))
    (hdots : segment ≠ ['.', '.']) (above : Bool) (kept : List (List Char)) :
    addSegment above kept segment = segment :: kept := by
  rw [addSegment.eq_def, if_neg h, if_neg hdots]

/-- A segment acts after the normal form of those before it as it does after them. -/
theorem foldl_addSegment_reverse {stack : List (List Char)} (h : IsStack stack)
    (segment : List Char) (kept : List (List Char)) :
    (addSegment true stack segment).reverse.foldl (addSegment false) kept =
      addSegment false (stack.reverse.foldl (addSegment false) kept) segment := by
  obtain ⟨plain, n, rfl, hplain⟩ := h
  by_cases hskip : segment = [] ∨ segment = ['.']
  · rw [addSegment_of_skip hskip, addSegment_of_skip hskip]
  · by_cases hdots : segment = ['.', '.']
    · subst hdots
      cases plain with
      | nil =>
        cases n with
        | zero => rfl
        | succ n =>
          have hpush : addSegment true ([] ++ List.replicate (n + 1) ['.', '.']) ['.', '.'] =
              ['.', '.'] :: List.replicate (n + 1) ['.', '.'] := rfl
          rw [hpush, List.reverse_cons, List.foldl_append, List.nil_append]
          rfl
      | cons last plain =>
        have hlast := (List.forall_mem_cons.mp hplain).1
        have hpop : addSegment true (last :: plain ++ List.replicate n ['.', '.']) ['.', '.'] =
            plain ++ List.replicate n ['.', '.'] := by
          simp [addSegment, hlast.ne_dots]
        rw [hpop, List.cons_append, List.reverse_cons, List.foldl_append, List.foldl_cons,
          List.foldl_nil, addSegment_of_isSegment hlast]
        simp [addSegment, hlast.ne_dots]
    · rw [addSegment_of_name hskip hdots, List.reverse_cons, List.foldl_append]
      rfl

/-- Going by the normal form of a path is going by the path. -/
theorem foldl_normal {segments stack : List (List Char)} (h : IsStack stack)
    (hslash : ∀ s ∈ segments, '/' ∉ s) (kept : List (List Char)) :
    (segments.foldl (addSegment true) stack).reverse.foldl (addSegment false) kept =
      segments.foldl (addSegment false) (stack.reverse.foldl (addSegment false) kept) := by
  induction segments generalizing stack with
  | nil => rfl
  | cons segment segments ih =>
    obtain ⟨hsegment, hslash⟩ := List.forall_mem_cons.mp hslash
    rw [List.foldl_cons, ih (isStack_addSegment h hsegment) hslash,
      foldl_addSegment_reverse h, List.foldl_cons]

theorem foldl_relativeNormal (path : String) (kept : List (List Char)) :
    (relativeNormal path).foldl (addSegment false) kept =
      (path.toList.splitOn '/').foldl (addSegment false) kept :=
  foldl_normal ⟨[], 0, rfl, fun _ hs => absurd hs List.not_mem_nil⟩
    (fun _ hs => not_mem_of_mem_splitOn hs) kept

/-! ### Splitting a normal form -/

/-- The parts of a joined normal form, and an empty one after a slash at the end. -/
theorem splitOn_intercalate_append {segments : List (List Char)} (hne : segments ≠ [])
    (hslash : ∀ s ∈ segments, '/' ∉ s) (trailing : Bool) :
    (['/'].intercalate segments ++ if trailing then ['/'] else []).splitOn '/' =
      segments ++ if trailing then [[]] else [] := by
  have hsplit := List.splitOn_intercalate '/' hslash hne
  cases trailing with
  | false => simpa using hsplit
  | true =>
    have happend := List.splitOn_append_cons_self (['/'].intercalate segments) [] (a := '/')
    simpa [hsplit] using happend

theorem foldl_trailing (segments kept : List (List Char)) (trailing : Bool) :
    (segments ++ if trailing then [[]] else []).foldl (addSegment false) kept =
      segments.foldl (addSegment false) kept := by
  cases trailing with
  | false => simp
  | true => simp [List.foldl_append, addSegment]

theorem isSegment_normalSegments (path : List Char) :
    ∀ s ∈ normalSegments path false, IsSegment s := fun s hs =>
  foldl_addSegment_isSegment (fun _ hs => not_mem_of_mem_splitOn hs)
    (fun _ h => absurd h List.not_mem_nil) s (List.mem_reverse.mp hs)

theorem intercalate_eq_nil_iff {segments : List (List Char)} (h : ∀ s ∈ segments, s ≠ []) :
    ['/'].intercalate segments = [] ↔ segments = [] := by
  cases segments with
  | nil => simp
  | cons s segments =>
    have hs := h s (List.mem_cons_self ..)
    simp [AbsPath.intercalate_cons_eq, hs]

/-- Every segment of a normal form has a name, double dots included. -/
theorem name_of_mem_relativeNormal {path : String} {s : List Char} (h : s ∈ relativeNormal path) :
    s ≠ [] ∧ '/' ∉ s := by
  obtain ⟨n, plain, heq, hplain⟩ := relativeNormal_eq path
  rw [heq] at h
  rcases List.mem_append.mp h with h | h
  · rw [List.eq_of_mem_replicate h]
    decide
  · exact ⟨(hplain s h).ne_nil, (hplain s h).no_slash⟩

theorem normalize_relative {path : String} (h : path.toList.head? ≠ some '/') :
    (relativeNormal path = [] ∧ (normalize path = "." ∨ normalize path = "./")) ∨
      relativeNormal path ≠ [] ∧ ∃ trailing : Bool, normalize path =
        String.ofList (['/'].intercalate (relativeNormal path) ++ if trailing then ['/'] else []) := by
  have hnil := intercalate_eq_nil_iff fun s hs => (@name_of_mem_relativeNormal path _ hs).1
  by_cases hempty : path = ""
  · subst hempty
    exact .inl ⟨by decide, .inl rfl⟩
  · by_cases hnormal : relativeNormal path = []
    · refine .inl ⟨hnormal, ?_⟩
      rw [relativeNormal] at hnormal
      have hdot : normalize path = if path.toList.getLast? = some '/' then "./" else "." := by
        simp [normalize, hempty, h, hnormal]
      rw [hdot]
      split
      · exact .inr rfl
      · exact .inl rfl
    · refine .inr ⟨hnormal, decide (path.toList.getLast? = some '/'), ?_⟩
      have hjoin : ['/'].intercalate (normalSegments path.toList true) ≠ [] := mt hnil.mp hnormal
      simp [normalize, hempty, h, hjoin, relativeNormal]

theorem normalize_absolute {path : String} (h : path.toList.head? = some '/') :
    (normalSegments path.toList false = [] ∧ normalize path = "/") ∨
      normalSegments path.toList false ≠ [] ∧ ∃ trailing : Bool, normalize path =
        String.ofList ('/' :: (['/'].intercalate (normalSegments path.toList false) ++
          if trailing then ['/'] else [])) := by
  have hempty : path ≠ "" := by
    rintro rfl
    exact nomatch h
  by_cases hnormal : normalSegments path.toList false = []
  · exact .inl ⟨hnormal, by simp [normalize, hempty, h, hnormal]⟩
  · refine .inr ⟨hnormal, decide (path.toList.getLast? = some '/'), ?_⟩
    have hplain : ∀ s ∈ normalSegments path.toList false, s ≠ [] := fun s hs =>
      (isSegment_normalSegments path.toList s hs).ne_nil
    have hjoin : ['/'].intercalate (normalSegments path.toList false) ≠ [] :=
      mt (intercalate_eq_nil_iff hplain).mp hnormal
    simp [normalize, hempty, h, hjoin]

end Path

namespace AbsPath

open KirkForge.Path

/-- Where the segments of a path lead from a directory. -/
def follow (dir : AbsPath) (path : String) : List (List Char) :=
  ((path.toList.splitOn '/').foldl (addSegment false) dir.segments.reverse).reverse

theorem segments_resolve_relative {cwd : AbsPath} {path : String}
    (h : path.toList.head? ≠ some '/') : (cwd.resolve path).segments = cwd.follow path := by
  rw [segments_resolve, if_neg h, follow]

theorem segments_resolve_absolute {cwd : AbsPath} {path : String}
    (h : path.toList.head? = some '/') :
    (cwd.resolve path).segments = normalSegments path.toList false := by
  rw [resolve]
  simp only [h, if_pos]

/-- Normalizing a path that is resolved afterwards makes no difference. -/
theorem resolve_normalize (cwd : AbsPath) (path : String) :
    cwd.resolve (normalize path) = cwd.resolve path := by
  apply eq_of_segments_eq
  by_cases h : path.toList.head? = some '/'
  · rw [segments_resolve_absolute h]
    have hplain := isSegment_normalSegments path.toList
    rcases normalize_absolute h with ⟨hnil, hnormal⟩ | ⟨hne, trailing, hnormal⟩
    · rw [hnormal, hnil, segments_resolve_absolute rfl]
      decide
    · have hslash := fun s hs => (hplain s hs).no_slash
      have hsplit := List.splitOn_append_cons_self [] (['/'].intercalate
        (normalSegments path.toList false) ++ if trailing then ['/'] else []) (a := '/')
      rw [List.nil_append, splitOn_intercalate_append hne hslash] at hsplit
      rw [hnormal, segments_resolve_absolute (by simp), String.toList_ofList, normalSegments, hsplit,
        List.foldl_append, foldl_trailing, foldl_addSegment_of_isSegment hplain]
      simp [addSegment]
  · rw [segments_resolve_relative h, follow, ← foldl_relativeNormal]
    have hname := fun s hs => @name_of_mem_relativeNormal path s hs
    rcases normalize_relative h with ⟨hnil, hnormal⟩ | ⟨hne, trailing, hnormal⟩
    · have hdot : ".".toList.splitOn '/' = [['.']] := by decide
      have hslash : "./".toList.splitOn '/' = [['.'], []] := by decide
      rw [hnil]
      rcases hnormal with hnormal | hnormal
      · rw [hnormal, segments_resolve_relative (by decide), follow, hdot]
        simp [addSegment]
      · rw [hnormal, segments_resolve_relative (by decide), follow, hslash]
        simp [addSegment]
    · have hhead : (normalize path).toList.head? ≠ some '/' := by
        obtain ⟨s, rest, hcons⟩ := List.exists_cons_of_ne_nil hne
        obtain ⟨hs, hslash⟩ := hname s (hcons ▸ List.mem_cons_self ..)
        obtain ⟨c, s, rfl⟩ := List.exists_cons_of_ne_nil hs
        rw [hnormal, String.toList_ofList, hcons, intercalate_cons_eq]
        intro hc
        obtain rfl := Option.some.inj hc
        exact hslash (List.mem_cons_self ..)
      rw [segments_resolve_relative hhead, follow, hnormal, String.toList_ofList,
        splitOn_intercalate_append hne (fun s hs => (hname s hs).2), foldl_trailing]

theorem normalize_ne_empty (path : String) : normalize path ≠ "" := by
  unfold Path.normalize
  split
  · decide
  · dsimp only
    split
    · split
      · decide
      · split <;> decide
    · next hnormal => simp [← String.toList_inj, hnormal]

theorem join_ne_empty (a b : String) : join a b ≠ "" := by
  unfold join
  split
  · exact normalize_ne_empty b
  · split
    · exact normalize_ne_empty a
    · exact normalize_ne_empty _

/-- A path that goes on after a slash leads where its second part leads from the first. -/
theorem segments_resolve_concat (cwd : AbsPath) {a : String} (b : String) (ha : a ≠ "") :
    (cwd.resolve (a ++ "/" ++ b)).segments = (cwd.resolve a).follow b := by
  rw [follow, segments_resolve, segments_resolve]
  have hlist : (a ++ "/" ++ b).toList = a.toList ++ '/' :: b.toList := by simp
  have hhead : (a.toList ++ '/' :: b.toList).head? = a.toList.head? := by
    rw [List.head?_append_of_ne_nil]
    simpa using ha
  rw [hlist, hhead, List.splitOn_append_cons_self, List.foldl_append, List.reverse_reverse]

/-- A join leads where its second part leads from the first. -/
theorem segments_resolve_join (cwd : AbsPath) {a b : String}
    (h : a ≠ "" ∨ b.toList.head? ≠ some '/') :
    (cwd.resolve (join a b)).segments = (cwd.resolve a).follow b := by
  have hempty (dir : AbsPath) : dir.follow "" = dir.segments := by
    simp [follow, addSegment]
  unfold join
  by_cases ha : a = ""
  · subst ha
    have hb : b.toList.head? ≠ some '/' := h.resolve_left (by simp)
    rw [if_pos rfl, resolve_normalize, segments_resolve_relative hb, follow, follow,
      segments_resolve_relative (by simp), hempty]
  · rw [if_neg ha]
    by_cases hb : b = ""
    · rw [if_pos hb, resolve_normalize, hb, hempty]
    · rw [if_neg hb, resolve_normalize, segments_resolve_concat cwd b ha]

/-! ### Where a path leads -/

theorem foldl_addSegment_dots {stack : List (List Char)} (h : ∀ s ∈ stack, IsSegment s) (n : Nat) :
    (List.replicate n ['.', '.']).foldl (addSegment false) stack = stack.drop n := by
  induction n generalizing stack with
  | zero => rfl
  | succ n ih =>
    rw [List.replicate_succ, List.foldl_cons]
    cases stack with
    | nil =>
      refine (@ih [] h).trans ?_
      rw [List.drop_nil, List.drop_nil]
    | cons s stack =>
      obtain ⟨hs, hstack⟩ := List.forall_mem_cons.mp h
      have hup : addSegment false (s :: stack) ['.', '.'] = stack := by
        simp [addSegment, hs.ne_dots]
      rw [hup, ih hstack, List.drop_succ_cons]

/-- A path drops as many segments as its normal form has double dots, and goes down by the rest. -/
theorem follow_eq (dir : AbsPath) (path : String) :
    dir.follow path = dir.segments.take (dir.segments.length - ups path) ++ names path := by
  obtain ⟨n, plain, heq, hplain⟩ := relativeNormal_eq path
  have hdots : ['.', '.'] ∉ plain := fun hmem => (hplain _ hmem).ne_dots rfl
  have hups : ups path = n := by
    rw [ups, heq, List.count_append, List.count_replicate_self, List.count_eq_zero.mpr hdots,
      Nat.add_zero]
  have hnames : names path = plain := by
    rw [names, heq, List.filter_append, List.filter_replicate_of_neg (by simp), List.nil_append]
    exact List.filter_eq_self.mpr fun s hs => decide_eq_true (hplain s hs).ne_dots
  have hstack : ∀ s ∈ dir.segments.reverse, IsSegment s :=
    fun s hs => dir.isSegment s (List.mem_reverse.mp hs)
  rw [follow, ← foldl_relativeNormal, heq, List.foldl_append, foldl_addSegment_dots hstack,
    foldl_addSegment_of_isSegment hplain, List.reverse_append, List.reverse_reverse,
    List.drop_reverse, List.reverse_reverse, hups, hnames]

/-- A directory is left unless the segments that are dropped come back. -/
theorem prefix_follow_iff (dir : AbsPath) (path : String) : dir.segments <+: dir.follow path ↔
    dir.segments.drop (dir.segments.length - ups path) <+: names path := by
  have hdir := List.take_append_drop (dir.segments.length - ups path) dir.segments
  have hcancel (kept rest : List (List Char)) :
      kept ++ rest <+: kept ++ names path ↔ rest <+: names path :=
    List.prefix_append_right_inj kept
  rw [follow_eq, ← hcancel (dir.segments.take (dir.segments.length - ups path)), hdir]

/-- A path without double dots in its normal form leads down. -/
theorem follow_eq_append {path : String} (h : ['.', '.'] ∉ relativeNormal path) (dir : AbsPath) :
    dir.follow path = dir.segments ++ relativeNormal path := by
  have hnames : names path = relativeNormal path :=
    List.filter_eq_self.mpr fun s hs => decide_eq_true fun hdots => h (hdots ▸ hs)
  rw [follow_eq, ups, List.count_eq_zero.mpr h, Nat.sub_zero, List.take_length, hnames]

theorem suffix_foldl_addSegment {segments : List (List Char)} (h : ['.', '.'] ∉ segments)
    (kept : List (List Char)) : kept <:+ segments.foldl (addSegment false) kept := by
  induction segments generalizing kept with
  | nil => exact List.suffix_rfl
  | cons segment segments ih =>
    rw [List.mem_cons, not_or] at h
    refine List.IsSuffix.trans ?_ (ih h.2 _)
    rw [addSegment.eq_def]
    split
    · exact List.suffix_rfl
    · rw [if_neg (Ne.symm h.1)]
      exact List.suffix_cons ..

/-- Without double dots a path does not lead out of its directory. -/
theorem prefix_follow {path : String} (h : ['.', '.'] ∉ path.toList.splitOn '/') (dir : AbsPath) :
    dir.segments <+: dir.follow path := by
  rw [follow, ← List.reverse_suffix, List.reverse_reverse]
  exact suffix_foldl_addSegment h _

/-- From a directory below the root, double dots lead to the root before anything else. -/
theorem follow_single {path : String} (h : ['.', '.'] ∈ relativeNormal path) :
    ∃ plain, ∀ dir : AbsPath, dir.segments.length = 1 → dir.follow path = plain := by
  refine ⟨names path, fun dir hdir => ?_⟩
  have hups : 1 ≤ ups path := List.count_pos_iff.mpr h
  rw [follow_eq, hdir, Nat.sub_eq_zero_of_le hups, List.take_zero, List.nil_append]

/-- A plain segment leads to what lies under this name. -/
theorem follow_of_isSegment {name : List Char} (h : IsSegment name) (dir : AbsPath) :
    dir.follow (String.ofList name) = dir.segments ++ [name] := by
  rw [follow, String.toList_ofList, List.splitOn_eq_singleton h.no_slash, List.foldl_cons,
    addSegment_of_isSegment h]
  simp

end AbsPath

end KirkForge

/-!
## The text of a normalized absolute path

The text is each part after a slash, where a slash at the end counts as an empty last part, and the
root is one empty part. One such text followed by a slash begins another exactly when its parts
begin the parts of the other and more follow.
-/

namespace KirkForge

namespace AbsPath

open KirkForge.Path

variable {parts qarts : List (List Char)} {p r : AbsPath} {trailing : Bool}

/-- The parts between the slashes of a normalized text. -/
def textParts (p : AbsPath) (trailing : Bool) : List (List Char) :=
  if p.segments = [] then [[]] else p.segments ++ if trailing then [[]] else []

theorem slashed_concat (parts : List (List Char)) (last : List Char) :
    slashed (parts ++ [last]) = slashed parts ++ '/' :: last := by
  simp [slashed]

theorem slash_notMem_textParts : ∀ s ∈ p.textParts trailing, '/' ∉ s := by
  have hempty : ∀ s ∈ [([] : List Char)], '/' ∉ s := by decide
  rw [textParts]
  split
  · exact hempty
  · refine List.forall_mem_append.mpr ⟨fun s hs => (p.isSegment s hs).no_slash, ?_⟩
    split
    · exact hempty
    · exact List.forall_mem_nil _

theorem exists_normalize_eq {path : String} (h : path.toList.head? = some '/') :
    ∃ trailing, normalize path = String.ofList (slashed ((root.resolve path).textParts trailing)) := by
  have hsegments : (root.resolve path).segments = normalSegments path.toList false :=
    segments_resolve_absolute h
  rcases normalize_absolute h with ⟨hnil, hnormal⟩ | ⟨hne, trailing, hnormal⟩
  · exact ⟨false, by rw [hnormal, textParts, hsegments, if_pos hnil]; rfl⟩
  · refine ⟨trailing, ?_⟩
    obtain ⟨s, rest, hcons⟩ := List.exists_cons_of_ne_nil hne
    rw [hnormal, textParts, hsegments, if_neg hne, hcons, intercalate_cons_eq]
    cases trailing <;> simp [slashed]

/-! ### Parts and texts -/

theorem splitOn_slashed_parts (h : ∀ s ∈ parts, '/' ∉ s) :
    (slashed parts).splitOn '/' = [] :: parts := by
  have hsplit := List.splitOn_intercalate '/' (List.forall_mem_cons.mpr ⟨List.not_mem_nil, h⟩)
    (List.cons_ne_nil [] parts)
  rwa [intercalate_cons_eq, List.nil_append] at hsplit

theorem slashed_inj (hparts : ∀ s ∈ parts, '/' ∉ s) (hqarts : ∀ s ∈ qarts, '/' ∉ s) :
    slashed parts = slashed qarts ↔ parts = qarts := by
  constructor
  · intro h
    have hsplit := congrArg (List.splitOn '/') h
    rw [splitOn_slashed_parts hparts, splitOn_slashed_parts hqarts] at hsplit
    exact (List.cons.inj hsplit).2
  · exact congrArg slashed

/-- One text and a slash begin the other. -/
theorem slashed_concat_prefix_iff (hparts : ∀ s ∈ parts, '/' ∉ s) (hqarts : ∀ s ∈ qarts, '/' ∉ s) :
    slashed parts ++ ['/'] <+: slashed qarts ↔ ∃ more, more ≠ [] ∧ qarts = parts ++ more := by
  constructor
  · rintro ⟨rest, h⟩
    rw [List.append_assoc, List.singleton_append] at h
    have hsplit := congrArg (List.splitOn '/') h
    rw [List.splitOn_append_cons_self, splitOn_slashed_parts hparts,
      splitOn_slashed_parts hqarts, List.cons_append] at hsplit
    exact ⟨rest.splitOn '/', List.splitOn_ne_nil _ _, (List.cons.inj hsplit).2.symm⟩
  · rintro ⟨more, hne, rfl⟩
    obtain ⟨s, more, rfl⟩ := List.exists_cons_of_ne_nil hne
    exact ⟨s ++ slashed more, by simp [slashed]⟩

/-- A text ends in a slash with an empty part. -/
theorem getLast?_slashed (hparts : ∀ s ∈ parts, '/' ∉ s) (hne : parts ≠ []) :
    (slashed parts).getLast? = some '/' ↔ parts.getLast? = some [] := by
  obtain ⟨front, last, rfl⟩ := parts.eq_nil_or_concat'.resolve_left hne
  rw [slashed_concat, List.getLast?_append_cons, List.getLast?_concat, Option.some.injEq]
  cases hlast : last.getLast? with
  | none =>
    rw [List.getLast?_eq_none_iff.mp hlast]
    exact iff_of_true rfl rfl
  | some c =>
    obtain ⟨init, rfl⟩ := List.getLast?_eq_some_iff.mp hlast
    have hc : c ≠ '/' := by
      rintro rfl
      exact hparts _ (List.mem_append_right _ (List.mem_singleton_self _))
        (List.mem_append_right _ (List.mem_singleton_self _))
    rw [← List.cons_append, List.getLast?_concat, Option.some.injEq]
    exact iff_of_false hc (List.append_ne_nil_of_right_ne_nil _ (List.cons_ne_nil _ _))

/-! ### Containment -/

theorem ne_nil_of_mem_segments {s : List Char} (h : s ∈ p.segments) : s ≠ [] :=
  (p.isSegment s h).ne_nil

theorem textParts_ne_nil : p.textParts trailing ≠ [] := by
  rw [textParts]
  split
  · exact List.cons_ne_nil _ _
  · next hne => exact List.append_ne_nil_of_left_ne_nil hne _

/-- Only the last part may be empty. -/
theorem nil_notMem_of_textParts {front back : List (List Char)}
    (h : p.textParts trailing = front ++ back) (hback : back ≠ []) : [] ∉ front := by
  have hdropLast : ∀ s ∈ (p.textParts trailing).dropLast, s ≠ [] := by
    rw [textParts]
    split
    · exact List.forall_mem_nil _
    · cases trailing with
      | true =>
        rw [if_pos rfl, List.dropLast_concat]
        exact fun s hs => ne_nil_of_mem_segments hs
      | false =>
        rw [if_neg (by decide), List.append_nil]
        exact fun s hs => ne_nil_of_mem_segments (List.dropLast_subset _ hs)
  rw [h, List.dropLast_append_of_ne_nil hback] at hdropLast
  exact fun hmem => hdropLast _ (List.mem_append_left _ hmem) rfl

/-- The empty part at the end is not a segment, so only segments can begin with segments. -/
theorem segments_prefix_textParts : r.segments <+: p.textParts trailing ↔ r.Contains p := by
  rw [Contains, textParts]
  have hempty (h : [] ∈ r.segments) : False := ne_nil_of_mem_segments h rfl
  split
  · next hnil =>
    rw [hnil, List.prefix_nil, ← List.nil_append [[]], List.prefix_concat_iff, List.prefix_nil]
    refine or_iff_right fun h => hempty ?_
    rw [h]
    exact List.mem_singleton_self _
  · split
    · rw [List.prefix_concat_iff]
      refine or_iff_right fun h => hempty ?_
      rw [h]
      exact List.mem_append_right _ (List.mem_singleton_self _)
    · rw [List.append_nil]

theorem contains_of_textParts {tr tp : Bool} (h : r.textParts tr <+: p.textParts tp) :
    r.Contains p := by
  by_cases hroot : r.segments = []
  · rw [Contains, hroot]
    exact List.nil_prefix
  · rw [textParts, if_neg hroot] at h
    exact segments_prefix_textParts.mp ((List.prefix_append _ _).trans h)

/-- Without an empty part at the end the parts are the segments. -/
theorem textParts_of_contains (hr : (r.textParts trailing).getLast? ≠ some [])
    (h : r.Contains p) (tp : Bool) : r.textParts trailing <+: p.textParts tp := by
  have hparts : r.textParts trailing = r.segments := by
    rw [textParts] at hr ⊢
    split at hr
    · exact absurd rfl hr
    · next hroot =>
      rw [if_neg hroot]
      cases trailing with
      | false => exact List.append_nil _
      | true => exact absurd List.getLast?_concat hr
  rw [hparts]
  exact segments_prefix_textParts.mpr h

end AbsPath

end KirkForge
