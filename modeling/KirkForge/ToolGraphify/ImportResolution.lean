import KirkForge.Theory.FileSystem
import KirkForge.Theory.RelativePath
import KirkForge.Theory.Scanning
import KirkForge.Theory.Text
import KirkForge.ToolGraphify.ImportCycles

/-!
# Imports that lead nowhere

`resolveImport`, `tryResolveExtension` and the check for broken edges of the graph verifier
(`packages/tool-graphify/src/index.ts`). It asks which nodes there are, files or directories, and
looks for an index file beside what an import names instead of in it.
-/

namespace KirkForge.Graphify

variable {α : Type} (disk : FileSystem (List Char) α) (cwd : AbsPath)

def existsSync (p : AbsPath) : Bool := (disk.node p.segments).isSome

def RESOLVABLE_EXTENSIONS : List String :=
  [".ts", ".tsx", ".js", ".jsx", ".mjs", ".cjs", ".mts", ".cts"]

def INDEX_EXTENSIONS : List String := [".ts", ".tsx", ".js"]

def extended (basePath : AbsPath) : List AbsPath := RESOLVABLE_EXTENSIONS.map basePath.withSuffix

def indexFiles (dir : AbsPath) : List AbsPath :=
  INDEX_EXTENSIONS.map fun ext => dir.resolve ("index" ++ ext)

/-- The index files are those of `dirname(basePath)`. -/
def tryResolveExtension (basePath : AbsPath) : Option AbsPath :=
  ((extended basePath).find? (existsSync disk)).or
    ((indexFiles basePath.dirname).find? (existsSync disk))

/-- `path.match(/\.\w+$/)` -/
def hasExtension (path : String) : Bool :=
  let word := path.toList.reverse.takeWhile Pattern.isWordChar
  word ≠ [] && (path.toList.reverse.dropWhile Pattern.isWordChar).head? = some '.'

/-- Where a specifier leads from a file. -/
def importBase (spec «from» : String) : AbsPath := (cwd.resolve «from»).dirname.resolve spec

def resolveImport (spec «from» : String) : String :=
  if Text.startsWith spec "." then
    let resolved := cwd.relative (importBase cwd spec «from»)
    if hasExtension resolved then resolved
    else
      match tryResolveExtension disk (cwd.resolve resolved) with
      | some withExt => cwd.relative withExt
      | none => resolved ++ ".ts"
  else "node_modules/" ++ spec

/-- The test of the filter that counts the broken edges. -/
def isBroken (e : EdgeInfo) : Bool :=
  if Text.startsWith e.to "node_modules/" then false
  else
    let full := cwd.resolve e.to
    let rel := cwd.relative full
    if Text.startsWith rel ".." ∨ rel = "" then true
    else if existsSync disk full then false
    else (tryResolveExtension disk full).isNone

def brokenEdges (edges : List EdgeInfo) : Nat := (edges.filter (isBroken disk cwd)).length

/-- The edge that is collected for a specifier in a file. -/
def importEdge (spec «from» : String) (kind : EdgeInfo.Kind) : EdgeInfo where
  «from»
  «to» := resolveImport disk cwd spec «from»
  kind

example : hasExtension "src/a.test" = true ∧ hasExtension "src.d/a" = false ∧
    hasExtension ".." = false := by decide

/-! ### What an import may mean -/

def IsRelative (spec : String) : Prop :=
  spec = "." ∨ spec = ".." ∨ Text.startsWith spec "./" = true ∨ Text.startsWith spec "../" = true

/-- A file of the project. -/
def IsFile (p : AbsPath) : Prop :=
  p.Inside cwd ∧ ∃ id contents, disk.node p.segments = some (.file id contents)

/-- The source in TypeScript of a script. -/
def tsSource (base : AbsPath) : List AbsPath :=
  match base.segments.getLast? with
  | some last =>
    if ".js".toList <:+ last then
      [base.dirname.resolve (String.ofList (last.dropLast.dropLast ++ ['t', 's']))] else []
  | none => []

/-- The files that the import of a path may mean. -/
def targets (base : AbsPath) : List AbsPath :=
  base :: (extended base ++ indexFiles base ++ tsSource base)

def Resolvable (base : AbsPath) : Prop := ∃ p ∈ targets base, IsFile disk cwd p

/-- The edge is broken just if the import means no file of the project. -/
def BrokenExactly (spec «from» : String) (kind : EdgeInfo.Kind) : Prop :=
  isBroken disk cwd (importEdge disk cwd spec «from» kind) = true ↔
    ¬Resolvable disk cwd (importBase cwd spec «from»)

variable {disk cwd} {base p : AbsPath}

/-! ### The paths that are looked at -/

theorem isSuffix_of_mem {ext : String} (h : ext ∈ RESOLVABLE_EXTENSIONS) :
    AbsPath.IsSuffix ext := by
  have hall : ∀ ext ∈ RESOLVABLE_EXTENSIONS, AbsPath.IsSuffix ext := by decide
  exact hall ext h

theorem isSuffix_ts : AbsPath.IsSuffix ".ts" := isSuffix_of_mem (by decide)

theorem segments_resolve_name {name : List Char} (h : Path.IsSegment name) (dir : AbsPath) :
    (dir.resolve (String.ofList name)).segments = dir.segments ++ [name] := by
  have hresolve := AbsPath.segments_resolve_intercalate dir (List.cons_ne_nil name [])
    (List.forall_mem_singleton.mpr h)
  rwa [List.intercalate_singleton] at hresolve

theorem segments_of_mem_indexFiles {dir : AbsPath} (h : p ∈ indexFiles dir) :
    ∃ name, name ∈ ["index.ts", "index.tsx", "index.js"] ∧
      p.segments = dir.segments ++ [name.toList] := by
  obtain ⟨ext, hext, rfl⟩ := List.mem_map.mp h
  have hnames : ∀ ext ∈ INDEX_EXTENSIONS, "index" ++ ext ∈ ["index.ts", "index.tsx", "index.js"] ∧
      Path.IsSegment ("index" ++ ext).toList := by decide
  obtain ⟨hname, hsegment⟩ := hnames ext hext
  refine ⟨_, hname, ?_⟩
  rw [← segments_resolve_name hsegment, String.ofList_toList]

/-- A path beside another one has the same parent. -/
def Beside (base p : AbsPath) : Prop := ∃ last, p.segments = base.dirname.segments ++ [last]

theorem segments_of_mem_extended (h : p ∈ extended base) : ∃ ext ∈ RESOLVABLE_EXTENSIONS,
    p.segments = base.dirname.segments ++ [base.segments.getLastD [] ++ ext.toList] := by
  obtain ⟨ext, hext, rfl⟩ := List.mem_map.mp h
  have hsuffix := isSuffix_of_mem hext
  refine ⟨ext, hext, ?_⟩
  obtain hnil | ⟨front, last, hbase⟩ := List.eq_nil_or_concat' base.segments
  · obtain rfl : base = AbsPath.root := AbsPath.eq_of_segments_eq hnil
    exact AbsPath.segments_root_withSuffix hsuffix
  · rw [AbsPath.segments_withSuffix hbase hsuffix, AbsPath.segments_dirname, hbase,
      List.dropLast_concat, List.getLastD_concat]

theorem beside_of_mem_extended (h : p ∈ extended base) : Beside base p := by
  obtain ⟨ext, -, hp⟩ := segments_of_mem_extended h
  exact ⟨_, hp⟩

theorem beside_of_mem_indexFiles (h : p ∈ indexFiles base.dirname) : Beside base p := by
  obtain ⟨name, -, hp⟩ := segments_of_mem_indexFiles h
  exact ⟨_, hp⟩

theorem beside_of_mem_tsSource (h : p ∈ tsSource base) : Beside base p := by
  rw [tsSource] at h
  split at h
  · next last hlast =>
    split at h
    · next hjs =>
      obtain rfl := List.mem_singleton.mp h
      obtain ⟨stem, rfl⟩ := hjs
      have hslash := (base.isSegment _ (List.mem_of_getLast? hlast)).no_slash
      have hname : (stem ++ ".js".toList).dropLast.dropLast ++ ['t', 's'] =
          stem ++ ".ts".toList := by
        have hdrop : (stem ++ ".js".toList).dropLast.dropLast = stem ++ ['.'] := by
          rw [List.dropLast_append_of_ne_nil (by decide),
            List.dropLast_append_of_ne_nil (by decide)]
          rfl
        rw [hdrop, List.append_assoc]
        rfl
      rw [hname]
      exact ⟨_, segments_resolve_name (isSuffix_ts.isSegment fun hs =>
        hslash (List.mem_append_left _ hs)) _⟩
    · cases h
  · cases h

/-- What is beside a path that is not below the working directory is not below it either. -/
theorem Beside.not_inside (h : Beside base p) (hroot : base.segments = [] → cwd.segments ≠ [])
    (hbase : ¬base.Inside cwd) : ¬p.Inside cwd := by
  obtain ⟨last, hp⟩ := h
  rintro ⟨s, rest, hp'⟩
  rw [hp, AbsPath.segments_dirname] at hp'
  have hfront : base.segments.dropLast = cwd.segments ++ (s :: rest).dropLast := by
    have hdrop := congrArg List.dropLast hp'
    rwa [List.dropLast_concat, List.dropLast_append_of_ne_nil (List.cons_ne_nil s rest)] at hdrop
  by_cases hne : base.segments = []
  · rw [hne] at hfront
    exact hroot hne (List.append_eq_nil_iff.mp hfront.symm).1
  · apply hbase
    have hback := List.dropLast_append_getLast hne
    rw [hfront, List.append_assoc] at hback
    obtain ⟨t, more, hmore⟩ := List.exists_cons_of_ne_nil
      (show (s :: rest).dropLast ++ [base.segments.getLast hne] ≠ [] by simp)
    exact ⟨t, more, by rw [← hback, hmore]⟩

/-! ### What is found -/

theorem tryResolveExtension_isSome : (tryResolveExtension disk base).isSome = true ↔
    (∃ p ∈ extended base, existsSync disk p = true) ∨
      ∃ p ∈ indexFiles base.dirname, existsSync disk p = true := by
  rw [tryResolveExtension, Option.isSome_or, Bool.or_eq_true, List.find?_isSome, List.find?_isSome]

theorem of_tryResolveExtension {w : AbsPath} (h : tryResolveExtension disk base = some w) :
    existsSync disk w = true ∧ (w ∈ extended base ∨
      (∀ p ∈ extended base, ¬existsSync disk p = true) ∧ w ∈ indexFiles base.dirname) := by
  rw [tryResolveExtension, Option.or_eq_some_iff] at h
  obtain h | ⟨hnone, h⟩ := h
  · exact ⟨List.find?_some h, .inl (List.mem_of_find?_eq_some h)⟩
  · exact ⟨List.find?_some h, .inr ⟨List.find?_eq_none.mp hnone, List.mem_of_find?_eq_some h⟩⟩

theorem Beside.of_tryResolveExtension {w : AbsPath} (h : tryResolveExtension disk base = some w) :
    Beside base w := by
  obtain ⟨-, hw | ⟨-, hw⟩⟩ := Graphify.of_tryResolveExtension h
  · exact beside_of_mem_extended hw
  · exact beside_of_mem_indexFiles hw

/-! ### The filter -/

def nodeModules : List Char := "node_modules".toList

/-- The name begins with two dots. -/
def Dotted (s : List Char) : Prop := ['.', '.'] <+: s

instance (s : List Char) : Decidable (Dotted s) := inferInstanceAs (Decidable (_ <+: _))

theorem startsWith_iff {s p : String} : Text.startsWith s p = true ↔ p.toList <+: s.toList :=
  List.isPrefixOf_iff_prefix

section
variable {e : EdgeInfo} {s : List Char} {rest : List (List Char)}

theorem startsWith_nodeModules (hs : '/' ∉ s) :
    "node_modules/".toList <+: s ++ AbsPath.slashed rest ↔ s = nodeModules ∧ rest ≠ [] := by
  have hsplit : "node_modules/".toList = nodeModules ++ ['/'] := rfl
  constructor
  · rintro ⟨t, ht⟩
    rw [hsplit, List.append_assoc, List.singleton_append] at ht
    cases rest with
    | nil =>
      rw [AbsPath.slashed, List.flatMap_nil, List.append_nil] at ht
      exact absurd (ht ▸ List.mem_append_right _ List.mem_cons_self) hs
    | cons r rest =>
      have hinj := (Lists.append_cons_inj (by decide) hs).mp ht
      exact ⟨hinj.1.symm, List.cons_ne_nil r rest⟩
  · rintro ⟨rfl, hrest⟩
    obtain ⟨r, rest, rfl⟩ := List.exists_cons_of_ne_nil hrest
    exact ⟨r ++ AbsPath.slashed rest, by rw [hsplit]; simp [AbsPath.slashed]⟩

/-- What follows a name does not matter. -/
theorem dotted_append (hs : Path.IsSegment s) (t : List Char) : Dotted (s ++ t) ↔ Dotted s := by
  rw [Dotted, Dotted]
  refine ⟨fun h => ?_, fun h => h.trans (List.prefix_append _ _)⟩
  match s, hs with
  | [], hs => exact absurd rfl hs.ne_nil
  | [c], hs =>
    have hc := (List.cons_prefix_cons.mp h).1
    exact absurd (congrArg (fun c => [c]) hc.symm) hs.ne_dot
  | c :: d :: s, _ =>
    rw [List.cons_append, List.cons_append, List.cons_prefix_cons, List.cons_prefix_cons] at h
    rw [List.cons_prefix_cons, List.cons_prefix_cons]
    exact ⟨h.1, h.2.1, List.nil_prefix⟩

/-- An edge to something below the working directory. -/
theorem isBroken_inside (hto : e.to = cwd.relative p)
    (hp : p.segments = cwd.segments ++ s :: rest) :
    isBroken disk cwd e = true ↔ ¬(s = nodeModules ∧ rest ≠ []) ∧
      (Dotted s ∨ ¬(existsSync disk p = true ∨ (tryResolveExtension disk p).isSome = true)) := by
  have hs : Path.IsSegment s := AbsPath.isSegment_of_inside hp s List.mem_cons_self
  have htext : (cwd.relative p).toList = s ++ AbsPath.slashed rest := by
    rw [AbsPath.relative_of_inside hp, String.toList_ofList, AbsPath.intercalate_cons_eq]
  have hmodules : Text.startsWith (cwd.relative p) "node_modules/" = true ↔
      s = nodeModules ∧ rest ≠ [] := by
    rw [startsWith_iff, htext, startsWith_nodeModules hs.no_slash]
  have hdots : Text.startsWith (cwd.relative p) ".." = true ↔ Dotted s := by
    rw [startsWith_iff, htext]
    exact dotted_append hs _
  have hne : cwd.relative p ≠ "" := fun heq => by
    rw [heq] at htext
    exact hs.ne_nil (List.append_eq_nil_iff.mp htext.symm).1
  rw [isBroken, hto, AbsPath.resolve_relative_eq]
  simp only [hmodules, hdots, hne, or_false]
  split
  · next h => exact iff_of_false (by decide) fun hnot => hnot.1 h
  · next h =>
    split
    · next hs => exact iff_of_true rfl ⟨h, .inl hs⟩
    · next hs =>
      split
      · next hex =>
        exact iff_of_false (by decide) fun hnot => hnot.2.elim hs fun hno => hno (.inl hex)
      · next hex =>
        rw [Option.isNone_iff_eq_none, ← Option.not_isSome_iff_eq_none]
        simp [h, hs, hex]

/-- An edge that leads out of the working directory, or to a name that begins with two dots. -/
theorem isBroken_outside (hto : ¬Text.startsWith e.to "node_modules/" = true)
    (h : ∀ s rest, (cwd.resolve e.to).segments = cwd.segments ++ s :: rest → Dotted s) :
    isBroken disk cwd e = true := by
  have hdots : "..".toList = ['.', '.'] := rfl
  have hrel : Text.startsWith (cwd.relative (cwd.resolve e.to)) ".." = true ∨
      cwd.relative (cwd.resolve e.to) = "" := by
    by_cases hin : (cwd.resolve e.to).Inside cwd
    · obtain ⟨s, rest, hsegments⟩ := hin
      refine .inl (startsWith_iff.mpr ?_)
      rw [hdots, AbsPath.relative_of_inside hsegments, AbsPath.intercalate_cons_eq,
        String.toList_ofList]
      exact (h s rest hsegments).trans (List.prefix_append _ _)
    · obtain heq | heq | ⟨l, heq⟩ := AbsPath.relative_of_not_inside hin
      · exact .inr heq
      · exact .inl (startsWith_iff.mpr (by rw [heq]))
      · refine .inl (startsWith_iff.mpr ?_)
        rw [hdots, heq, String.toList_ofList]
        exact ⟨'/' :: l, rfl⟩
  rw [isBroken, if_neg hto]
  dsimp only
  rw [if_pos hrel]

end

/-! ### The edge of an import -/

variable (disk cwd base) in
/-- Where the edge of a relative import leads that means a path. -/
def edgeTo : String :=
  if hasExtension (cwd.relative base) then cwd.relative base
  else
    match tryResolveExtension disk base with
    | some withExt => cwd.relative withExt
    | none => cwd.relative base ++ ".ts"

theorem startsWith_dot {spec : String} (h : IsRelative spec) : Text.startsWith spec "." = true := by
  rw [startsWith_iff]
  have hdot {p : String} (hp : ".".toList <+: p.toList) (h : Text.startsWith spec p = true) :
      ".".toList <+: spec.toList := hp.trans (startsWith_iff.mp h)
  obtain rfl | rfl | h | h := h
  · decide
  · decide
  · exact hdot (by decide) h
  · exact hdot (by decide) h

theorem to_importEdge {spec «from» : String} (h : IsRelative spec) (kind : EdgeInfo.Kind) :
    (importEdge disk cwd spec «from» kind).to =
      edgeTo disk cwd (importBase cwd spec «from») := by
  simp only [importEdge, resolveImport, if_pos (startsWith_dot h), AbsPath.resolve_relative_eq,
    edgeTo]

theorem relative_append {rest : List (List Char)} (h : p.segments = cwd.segments ++ rest) :
    cwd.relative p = String.ofList (['/'].intercalate rest) := by
  rw [AbsPath.relative, h, Path.relativeSegments_append]

section
variable {e : EdgeInfo}

theorem not_startsWith_of_dots {l : List Char} {text : String}
    (h : text.toList = '.' :: l ∨ text.toList = []) :
    ¬Text.startsWith text "node_modules/" = true := by
  have hsplit : "node_modules/".toList = 'n' :: "ode_modules/".toList := rfl
  rw [startsWith_iff, hsplit]
  obtain h | h := h
  · rw [h, List.cons_prefix_cons]
    exact fun hc => absurd hc.1 (by decide)
  · rw [h]
    exact fun hc => absurd (List.prefix_nil.mp hc) (List.cons_ne_nil _ _)

theorem dots_of_not_inside (h : ¬p.Inside cwd) :
    ∃ l, (cwd.relative p).toList = '.' :: l ∨ (cwd.relative p).toList = [] := by
  obtain heq | heq | ⟨l, heq⟩ := AbsPath.relative_of_not_inside h
  · exact ⟨[], .inr (by rw [heq]; rfl)⟩
  · exact ⟨['.'], .inl (by rw [heq]; rfl)⟩
  · exact ⟨'.' :: '/' :: l, .inl (by rw [heq, String.toList_ofList])⟩

theorem isBroken_of_not_inside (hto : e.to = cwd.relative p) (h : ¬p.Inside cwd) :
    isBroken disk cwd e = true := by
  obtain ⟨l, hl⟩ := dots_of_not_inside h
  refine isBroken_outside (hto ▸ not_startsWith_of_dots hl) fun s rest hs => ?_
  rw [hto, AbsPath.resolve_relative_eq] at hs
  exact absurd ⟨s, rest, hs⟩ h

/-- Where the name of a path is continued that is not below the working directory, the text still
leads nowhere below it but to a name that begins with dots. -/
theorem dotted_of_continued (hin : ¬base.Inside cwd) (hne : base ≠ cwd) {s : List Char}
    {rest : List (List Char)}
    (h : (cwd.resolve (cwd.relative base ++ ".ts")).segments = cwd.segments ++ s :: rest) :
    Dotted s := by
  obtain ⟨common, up, down, hcwd, hbase, heq⟩ :=
    Path.relativeSegments_eq cwd.segments base.segments
  have htext (front : List (List Char)) (last : List Char)
      (hlist : List.replicate up.length ['.', '.'] ++ down = front ++ [last]) :
      cwd.relative base ++ ".ts" =
        String.ofList (['/'].intercalate (front ++ [last ++ ".ts".toList])) := by
    apply String.toList_inj.mp
    have hts : ".ts".toList = ['.', 't', 's'] := rfl
    rw [hts, String.toList_append, hts, AbsPath.relative, heq, hlist, String.toList_ofList,
      String.toList_ofList, AbsPath.intercalate_concat_append]
  obtain rfl | ⟨front, last, rfl⟩ := List.eq_nil_or_concat' down
  · rw [List.append_nil] at htext hbase
    obtain ⟨n, hn⟩ : ∃ n, up.length = n + 1 := by
      cases up with
      | nil => exact absurd (AbsPath.eq_of_segments_eq (by rw [hbase, hcwd, List.append_nil])) hne
      | cons u up => exact ⟨up.length, rfl⟩
    rw [htext (List.replicate n ['.', '.']) ['.', '.'] (by rw [hn, List.replicate_succ']),
      AbsPath.segments_resolve_dots cwd n (List.forall_mem_singleton.mpr (by decide))] at h
    have hlength := congrArg List.length h
    have hup : up.length ≤ cwd.segments.length := by rw [hcwd, List.length_append]; omega
    simp only [List.length_append, List.length_take, List.length_cons, List.length_nil] at hlength
    obtain rfl : n = 0 := by omega
    rw [Nat.sub_zero, List.take_length] at h
    obtain ⟨rfl, -⟩ := List.cons.inj (List.append_cancel_left h)
    decide
  · have hparts := List.forall_mem_append.mp (hbase ▸ base.isSegment)
    have hparts' := List.forall_mem_append.mp hparts.2
    have hlast := hparts'.2 last (List.mem_singleton_self last)
    have hdown : ∀ t ∈ front ++ [last ++ ".ts".toList], Path.IsSegment t :=
      List.forall_mem_append.mpr ⟨hparts'.1,
        List.forall_mem_singleton.mpr (isSuffix_ts.isSegment hlast.no_slash)⟩
    rw [htext (List.replicate up.length ['.', '.'] ++ front) last (by rw [List.append_assoc]),
      List.append_assoc, AbsPath.segments_resolve_dots cwd _ hdown] at h
    have hbeside : Beside base (base.withSuffix ".ts") :=
      beside_of_mem_extended (List.mem_map_of_mem (by decide))
    have hnot := hbeside.not_inside (fun hnil => absurd hnil (by rw [hbase]; simp)) hin
    refine absurd ⟨s, rest, ?_⟩ hnot
    rw [← h, AbsPath.segments_withSuffix (by rw [hbase, ← List.append_assoc]) isSuffix_ts, hcwd]
    simp

/-- An import that leads out of the working directory is broken. -/
theorem isBroken_of_outside (hto : e.to = edgeTo disk cwd base) (hin : ¬base.Inside cwd)
    (hne : base ≠ cwd) : isBroken disk cwd e = true := by
  have hroot : base.segments = [] → cwd.segments ≠ [] := fun hbase hcwd =>
    hne (AbsPath.eq_of_segments_eq (hbase.trans hcwd.symm))
  rw [edgeTo] at hto
  split at hto
  · exact isBroken_of_not_inside hto hin
  · split at hto
    · next w hw =>
      exact isBroken_of_not_inside hto ((Beside.of_tryResolveExtension hw).not_inside hroot hin)
    · obtain ⟨l, hl⟩ := dots_of_not_inside hin
      refine isBroken_outside ?_ fun s rest hs => dotted_of_continued hin hne (hto ▸ hs)
      rw [hto]
      obtain hl | hl := hl
      · exact not_startsWith_of_dots (l := l ++ ".ts".toList)
          (.inl (by rw [String.toList_append, hl]; rfl))
      · exact not_startsWith_of_dots (l := "ts".toList)
          (.inl (by rw [String.toList_append, hl]; rfl))

end

end KirkForge.Graphify
