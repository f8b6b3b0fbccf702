import KirkForge.Theory.Lists
import KirkForge.ToolLintImports.ScriptLines

/-!
# Renamed imports

The engine is to report each import of a package in the table once and nothing else
(`ReportedOnce`). It reports a dynamic import twice, once for each of two patterns; it takes the
names of properties that every object inherits for names in the table; it misses imports that are
not written as the patterns expect; and of the modules that one line of a Python file imports it
sees the first. These are all the ways in which it fails (`ImportLintEngine.reportedOnce_iff`).
-/

namespace KirkForge.ImportLint

open Scan

/-! ### The imports of a file -/

/-- The line of an import and its package, empty if it names none. -/
def Placed.packaged (a : Placed) : Nat × String := (a.line, topLevelJsPackage a.form.specifier)

/-- The imports of a script: the line and the package of each that names one. -/
def jsImports (content : List Char) : List (Nat × String) :=
  ((placedImports {} content).map Placed.packaged).filter (·.2 ≠ "")

def endsStatement (c : Char) : Bool := c = ';' || c = ':'

/-- The statements on a line, up to a comment. One may stand behind the colon of another. -/
def statements (line : List Char) : List (List Char) :=
  (line.takeWhile (· ≠ '#')).splitOnP endsStatement

/-- The names behind the commas. -/
def furtherNames (rest : List Char) : List (List Char) :=
  (rest.splitOn ',').tail.filterMap fun part => (name (many Text.isWhitespace part).2).map Prod.fst

/-- The modules that a statement imports. -/
def statementNames (statement : List Char) : List (List Char) :=
  match pyImport (many isBlank statement).2 with
  | some (raw, rest) => raw :: furtherNames rest
  | none => ((pyFrom (many isBlank statement).2).map Prod.fst).toList

def lineNames (line : List Char) : List (List Char) := (statements line).flatMap statementNames

/-- The imports of a Python file: the line and the package of each. -/
def pyImports (content : List Char) : List (Nat × String) :=
  (content.splitOn '\n').zipIdx.flatMap fun (line, i) =>
    (lineNames line).map fun raw => (i + 1, topLevelPythonPackage raw)

def importsOf (relPath content : String) : List (Nat × String) :=
  if isPython relPath then pyImports content.toList else jsImports content.toList

example : pyImports "import os, urllib2 as u; from PIL.Image import x  # import imp".toList =
    [(1, "os"), (1, "urllib2"), (1, "PIL")] := by decide +kernel

def ImportLintEngine.renames (engine : ImportLintEngine) (relPath : String) : Renames :=
  if isPython relPath then engine.pythonRenames else engine.typescriptRenames

/-- The package is a key of the table. -/
def own (renames : Renames) (pkg : String) : Bool := (OrderedMap.lookup pkg renames).isSome

/-- Each import of a package in the table is reported once, on its line and by its name, and nothing
else is. -/
def ReportedOnce (renames : Renames) (imports : List (Nat × String))
    (findings : List ImportFinding) : Prop :=
  (findings.map fun f => (f.line, f.oldName)).Perm (imports.filter fun i => own renames i.2)

instance (renames : Renames) (imports : List (Nat × String)) (findings : List ImportFinding) :
    Decidable (ReportedOnce renames imports findings) := inferInstanceAs (Decidable (List.Perm _ _))

/-- The names on a line of a Python file that are not the first one. -/
def laterNames (line : List Char) : List (List Char) :=
  (statementNames ((statements line).headD [])).tail ++ (statements line).tail.flatMap statementNames

/-- The name of a package that is looked up with success. -/
def known (renames : Renames) (pkg : String) : Bool := pkg ≠ "" && (entryOf renames pkg).isSome

/-- The packages that are found on lines, each with the number of its line. -/
def entries (found : List Char → List (List Char)) (package : List Char → String)
    (lines : List (List Char)) : List (Nat × String) :=
  (numbered found 0 lines).map fun x => (x.1, package x.2)

/-- The dynamic imports of known packages that are closed on their line: they are matched twice. -/
def matchedAgain (renames : Renames) (content : List Char) : List (Nat × String) :=
  (entries (execAll RE_JS_DYNAMIC) topLevelJsPackage (content.splitOn '\n')).filter
    fun i => known renames i.2

/-- The name of a package that is in the table. -/
def listed (renames : Renames) (pkg : String) : Bool := pkg ≠ "" && own renames pkg

/-- The imports that are written as the patterns expect. -/
def regular (content : List Char) : List (Nat × String) :=
  ((placedImports {} content).filter fun a => a.Regular).map Placed.packaged

/-- The imports of packages in the table that are not. -/
def missed (renames : Renames) (content : List Char) : List (Nat × String) :=
  (((placedImports {} content).filter fun a => ¬a.Regular).map Placed.packaged).filter
    fun i => listed renames i.2

/-- No import that is written as the patterns expect is of a package that is named like an inherited
property and is not in the table, and on each line as many imports of a package are matched twice as
are missed (commonly none). -/
structure CleanScript (renames : Renames) (content : List Char) : Prop where
  inherited : ∀ i ∈ regular content, i.2 ∈ inheritedProperties → own renames i.2 = true
  again : (matchedAgain renames content).Perm (missed renames content)

/-- On each line the first package is not named like an inherited property without being in the
table, and none that comes later is in the table. -/
structure CleanPython (renames : Renames) (content : List Char) : Prop where
  inherited : ∀ line ∈ content.splitOn '\n', ∀ raw ∈ RE_PY_IMPORT line,
    topLevelPythonPackage raw ∈ inheritedProperties → own renames (topLevelPythonPackage raw) = true
  later : ∀ line ∈ content.splitOn '\n', ∀ raw ∈ laterNames line,
    own renames (topLevelPythonPackage raw) = false

/-- No specifier ends like what is before another one, unless it is that of an import that
`RE_JS_IMPORT` matches as a whole. -/
def Separate (content : List Char) : Prop :=
  ∀ a ∈ placedImports {} content, a.isWorded = true ∨ opensImport a.form.specifier = false

instance (content : List Char) : Decidable (Separate content) :=
  inferInstanceAs (Decidable (∀ a ∈ placedImports {} content,
    a.isWorded = true ∨ opensImport a.form.specifier = false))

def Clean (renames : Renames) (relPath content : String) : Prop :=
  if isPython relPath then CleanPython renames content.toList
  else CleanScript renames content.toList

/-! ### The first name on a line -/

section stops

variable {c : Char} (x t : List Char)

theorem name_append_stop (hc : isNamePart c = false) (hstart : (c.isAlpha || c = '_') = false) :
    name (x ++ c :: t) = (name x).map fun r => (r.1, r.2 ++ c :: t) := by
  cases x with
  | nil =>
    simp [name, hstart]
  | cons d x =>
    rw [List.cons_append, name, name, many_append_stop hc x t]
    split <;> rfl

/-- A character that ends a statement. -/
structure IsStop (c : Char) : Prop where
  blank : isBlank c = false
  space : Text.isWhitespace c = false
  part : isNamePart c = false
  start : (c.isAlpha || c = '_') = false
  word : c ∉ "import".toList ∧ c ∉ "from".toList

theorem pyImport_append_stop (hc : IsStop c) :
    pyImport (x ++ c :: t) = (pyImport x).map fun r => (r.1, r.2 ++ c :: t) := by
  rw [pyImport, pyImport, keyword_append_stop hc.word.1 x t]
  cases keyword "import" x with
  | none => rfl
  | some y =>
    simp only [Option.map_some, Option.bind_some, many1_append_stop hc.space y t]
    cases many1 Text.isWhitespace y with
    | none => rfl
    | some r => exact name_append_stop r.2 t hc.part hc.start

theorem pyFrom_append_stop (hc : IsStop c) :
    pyFrom (x ++ c :: t) = (pyFrom x).map fun r => (r.1, r.2 ++ c :: t) := by
  rw [pyFrom, pyFrom, keyword_append_stop hc.word.2 x t]
  cases keyword "from" x with
  | none => rfl
  | some y =>
    simp only [Option.map_some, Option.bind_some, many1_append_stop hc.space y t]
    cases many1 Text.isWhitespace y with
    | none => rfl
    | some r =>
      simp only [Option.map_some, Option.bind_some, name_append_stop r.2 t hc.part hc.start]
      cases name r.2 with
      | none => rfl
      | some n =>
        simp only [Option.map_some, Option.bind_some, many1_append_stop hc.space n.2 t]
        cases many1 Text.isWhitespace n.2 with
        | none => rfl
        | some r' =>
          simp only [Option.map_some, Option.bind_some, keyword_append_stop hc.word.1 r'.2 t]
          cases keyword "import" r'.2 <;> rfl

/-- Nothing is read over the end of a statement. -/
theorem RE_PY_IMPORT_append_stop (hc : IsStop c) :
    RE_PY_IMPORT (x ++ c :: t) = RE_PY_IMPORT x := by
  rw [RE_PY_IMPORT, RE_PY_IMPORT, many_append_stop hc.blank x t]
  simp only [pyImport_append_stop _ t hc, pyFrom_append_stop _ t hc]
  cases pyImport (many isBlank x).2 with
  | none => cases pyFrom (many isBlank x).2 <;> rfl
  | some r => rfl

theorem isStop_of_endsStatement (h : endsStatement c = true) : IsStop c := by
  simp only [endsStatement, Bool.or_eq_true, decide_eq_true_eq] at h
  obtain rfl | rfl := h <;> exact ⟨by decide, by decide, by decide, by decide, by decide⟩

theorem isStop_hash : IsStop '#' := ⟨by decide, by decide, by decide, by decide, by decide⟩

end stops

theorem RE_PY_IMPORT_eq_head? (statement : List Char) :
    RE_PY_IMPORT statement = (statementNames statement).head? := by
  rw [RE_PY_IMPORT, statementNames]
  cases pyImport (many isBlank statement).2 with
  | none => cases pyFrom (many isBlank statement).2 <;> rfl
  | some r => rfl

theorem splitOnP_eq_cons (p : Char → Bool) (l : List Char) :
    ∃ later, l.splitOnP p = l.takeWhile (!p ·) :: later := by
  have hall : ∀ c ∈ l.takeWhile (!p ·), p c = false := fun c hc => by
    simpa using List.mem_takeWhile_imp hc
  obtain h | ⟨c, rest, hc, h⟩ := Lists.takeWhile_cases (!p ·) l
  · rw [h] at hall ⊢
    exact ⟨[], List.splitOnP_eq_singleton hall⟩
  · refine ⟨rest.splitOnP p, ?_⟩
    conv_lhs => rw [h]
    exact List.splitOnP_append_cons_of_forall_mem hall c (by simpa using hc) rest

/-- The pattern finds the first name of the first statement. -/
theorem lineNames_eq (line : List Char) :
    lineNames line = (RE_PY_IMPORT line).toList ++ laterNames line := by
  have hcode : RE_PY_IMPORT line = RE_PY_IMPORT (line.takeWhile (· ≠ '#')) := by
    obtain h | ⟨c, rest, hc, h⟩ := Lists.takeWhile_cases (· ≠ '#') line
    · rw [h]
    · obtain rfl : c = '#' := by simpa using hc
      conv_lhs => rw [h]
      exact RE_PY_IMPORT_append_stop _ rest isStop_hash
  have hfirst (code : List Char) :
      RE_PY_IMPORT code = RE_PY_IMPORT (code.takeWhile (!endsStatement ·)) := by
    obtain h | ⟨c, rest, hc, h⟩ := Lists.takeWhile_cases (!endsStatement ·) code
    · rw [h]
    · conv_lhs => rw [h]
      exact RE_PY_IMPORT_append_stop _ rest (isStop_of_endsStatement (by simpa using hc))
  obtain ⟨others, hstatements⟩ := splitOnP_eq_cons endsStatement (line.takeWhile (· ≠ '#'))
  rw [← statements] at hstatements
  rw [lineNames, laterNames, hstatements, hcode, hfirst, RE_PY_IMPORT_eq_head?, List.flatMap_cons,
    ← List.append_assoc, List.headD_cons, List.tail_cons]
  generalize statementNames _ = names
  cases names <;> rfl

/-! ### What is reported -/

theorem known_iff {renames : Renames} {pkg : String} : known renames pkg = true ↔
    pkg ≠ "" ∧ (own renames pkg = true ∨ pkg ∈ inheritedProperties) := by
  rw [known, Bool.and_eq_true, decide_eq_true_eq, entryOf, own]
  cases OrderedMap.lookup pkg renames <;> simp

theorem known_of_own {renames : Renames} {pkg : String} (h : own renames pkg = true)
    (hpkg : pkg ≠ "") : known renames pkg = true := known_iff.mpr ⟨hpkg, .inl h⟩

/-- What is known without being in the table is named like an inherited property. -/
theorem own_of_known_iff {renames : Renames} {pkg : String} (hpkg : pkg ≠ "") :
    (known renames pkg = true → own renames pkg = true) ↔
      (pkg ∈ inheritedProperties → own renames pkg = true) := by
  constructor
  · exact fun h hmem => h (known_iff.mpr ⟨hpkg, .inr hmem⟩)
  · exact fun h hknown => (known_iff.mp hknown).2.elim id h

/-- A finding has the line and the name of what was found. -/
theorem map_check (renames : Renames) (file : String) (i : Nat) (language : SourceLanguage)
    (pkg : String) :
    (check renames file i language pkg).map (fun f => (f.line, f.oldName)) =
      Option.guard (fun entry => known renames entry.2) (i + 1, pkg) := by
  rw [Option.guard, check, known]
  split
  · next h => simp [h]
  · next h => cases entryOf renames pkg <;> simp [h, finding]

/-- A scan that checks what is found on each line reports what is known of it. -/
theorem reported_eq {renames : Renames} {file : String} {language : SourceLanguage}
    {found : List Char → List (List Char)} {package : List Char → String}
    {scan : List Char → Nat → List ImportFinding}
    (hscan : ∀ line i, scan line i =
      (found line).filterMap fun x => check renames file i language (package x))
    (lines : List (List Char)) :
    (lines.zipIdx.flatMap fun (line, i) => scan line i).map (fun f => (f.line, f.oldName)) =
      (entries found package lines).filter fun entry => known renames entry.2 := by
  have hline (i : Nat) (l : List (List Char)) :
      (l.filterMap fun x => check renames file i language (package x)).map
          (fun f => (f.line, f.oldName)) =
        (l.map fun x => (i + 1, package x)).filter fun entry => known renames entry.2 := by
    simp only [List.map_filterMap, map_check]
    rw [← List.filterMap_eq_filter, List.filterMap_map]
    rfl
  simp only [entries, numbered, hscan, List.map_flatMap, List.filter_flatMap, hline, List.map_map]
  rfl

theorem forall_mem_numbered {found : List Char → List (List Char)} {p : List Char → Prop}
    {lines : List (List Char)} {k : Nat} :
    (∀ x ∈ numbered found k lines, p x.2) ↔ ∀ line ∈ lines, ∀ x ∈ found line, p x := by
  induction lines generalizing k with
  | nil => exact ⟨nofun, nofun⟩
  | cons line lines ih =>
    rw [numbered_cons, List.forall_mem_append, ih, List.forall_mem_map, List.forall_mem_cons]

theorem perm_numbered_append (found found' : List Char → List (List Char)) (k : Nat)
    (lines : List (List Char)) :
    (numbered (fun line => found line ++ found' line) k lines).Perm
      (numbered found k lines ++ numbered found' k lines) := by
  induction lines generalizing k with
  | nil => exact List.Perm.refl _
  | cons line lines ih =>
    rw [numbered_cons, numbered_cons found, numbered_cons found', List.map_append, List.append_assoc,
      List.append_assoc]
    refine List.Perm.append_left _ (((ih (k + 1)).append_left _).trans ?_)
    exact List.perm_append_comm_assoc ..

/-! ### Python files -/

/-- A name does not begin with a dot. -/
theorem topLevelPythonPackage_ne_empty {cs raw rest : List Char} (h : name cs = some (raw, rest)) :
    topLevelPythonPackage raw ≠ "" := by
  cases cs with
  | nil => cases h
  | cons c cs =>
    rw [name] at h
    split at h
    · next hc =>
      cases h
      have hdot : c ≠ '.' := by
        rintro rfl
        exact absurd hc (by decide)
      rw [topLevelPythonPackage, List.takeWhile_cons_of_pos (by simpa using hdot)]
      intro hempty
      exact absurd (congrArg String.toList hempty) (by simp)
    · cases h

theorem exists_name_of_mem_lineNames {line raw : List Char} (h : raw ∈ lineNames line) :
    ∃ cs rest, name cs = some (raw, rest) := by
  obtain ⟨statement, -, h⟩ := List.mem_flatMap.mp h
  rw [statementNames] at h
  split at h
  · next first rest hread =>
    obtain rfl | h := List.mem_cons.mp h
    · obtain ⟨r, -, hname⟩ := Option.bind_eq_some_iff.mp hread
      exact ⟨_, _, hname⟩
    · obtain ⟨part, -, h⟩ := List.mem_filterMap.mp h
      obtain ⟨⟨_, rest⟩, hname, rfl⟩ := Option.map_eq_some_iff.mp h
      exact ⟨_, _, hname⟩
  · obtain ⟨⟨_, rest⟩, hread, rfl⟩ := Option.map_eq_some_iff.mp (Option.mem_toList.mp h)
    obtain ⟨r, -, hread⟩ := Option.bind_eq_some_iff.mp hread
    obtain ⟨⟨raw', rest'⟩, hname, hread⟩ := Option.bind_eq_some_iff.mp hread
    obtain ⟨after, -, heq⟩ := Option.map_eq_some_iff.mp hread
    cases heq
    exact ⟨_, _, hname⟩

theorem scanPythonLine_eq (line : List Char) (renames : Renames) (file : String) (i : Nat) :
    scanPythonLine line renames file i = (RE_PY_IMPORT line).toList.filterMap fun raw =>
      check renames file i .python (topLevelPythonPackage raw) := by
  rw [scanPythonLine]
  cases RE_PY_IMPORT line with
  | none => rfl
  | some raw =>
    rw [Option.toList_some, List.filterMap_cons]
    dsimp only
    cases check renames file i .python (topLevelPythonPackage raw) <;> rfl

theorem forall_mem_entries {found : List Char → List (List Char)} {package : List Char → String}
    {p : String → Prop} {lines : List (List Char)} :
    (∀ x ∈ entries found package lines, p x.2) ↔ ∀ line ∈ lines, ∀ x ∈ found line, p (package x) := by
  rw [entries, List.forall_mem_map]
  exact forall_mem_numbered (p := fun x => p (package x))

theorem perm_entries_append (found found' : List Char → List (List Char))
    (package : List Char → String) (lines : List (List Char)) :
    (entries (fun line => found line ++ found' line) package lines).Perm
      (entries found package lines ++ entries found' package lines) := by
  rw [entries, entries, entries, ← List.map_append]
  exact (perm_numbered_append found found' 0 lines).map _

theorem reportedOnce_python_iff (renames : Renames) (file : String) (content : List Char) :
    ReportedOnce renames (pyImports content) ((content.splitOn '\n').zipIdx.flatMap fun (line, i) =>
        scanPythonLine line renames file i) ↔
      CleanPython renames content := by
  have himports : pyImports content =
      entries (fun line => (RE_PY_IMPORT line).toList ++ laterNames line) topLevelPythonPackage
        (content.splitOn '\n') := by
    simp only [← lineNames_eq, entries, numbered, List.map_flatMap, List.map_map]
    rfl
  have hname (line : List Char) (raw) (h : raw ∈ RE_PY_IMPORT line) :
      topLevelPythonPackage raw ≠ "" := by
    have hmem : raw ∈ lineNames line := by
      rw [lineNames_eq]
      exact List.mem_append_left _ (Option.mem_toList.mpr h)
    obtain ⟨cs, rest, hread⟩ := exists_name_of_mem_lineNames hmem
    exact topLevelPythonPackage_ne_empty hread
  have hperm := (perm_entries_append (fun line => (RE_PY_IMPORT line).toList) laterNames
    topLevelPythonPackage (content.splitOn '\n')).filter fun i => own renames i.2
  rw [List.filter_append] at hperm
  have hpackages : ∀ x ∈ entries (fun line => (RE_PY_IMPORT line).toList) topLevelPythonPackage
      (content.splitOn '\n'), x.2 ≠ "" := by
    rw [forall_mem_entries (p := (· ≠ ""))]
    exact fun line _ raw h => hname line raw (Option.mem_toList.mp h)
  have hnone (l : List (Nat × String)) :
      [].Perm (l.filter fun i => own renames i.2) ↔ ∀ i ∈ l, own renames i.2 = false := by
    rw [List.nil_perm, List.filter_eq_nil_iff]
    simp
  have hfilters (l : List (Nat × String)) := Lists.perm_filter_append_iff (m := [])
    (q := fun i => own renames i.2) (p := fun i => known renames i.2)
    (fun i hi hown => known_of_own hown (hpackages i hi))
    fun i (hi : i ∈ l.filter fun i => own renames i.2) =>
      List.of_mem_filter (p := fun i : Nat × String => own renames i.2) hi
  rw [ReportedOnce, himports, reported_eq fun line i => scanPythonLine_eq line renames file i,
    hperm.congr_right, ← List.append_nil (List.filter _ _), hfilters, hnone,
    forall_mem_entries (p := fun pkg => known renames pkg = true → own renames pkg = true),
    forall_mem_entries (p := fun pkg => own renames pkg = false)]
  constructor
  · rintro ⟨hfirst, hlater⟩
    exact ⟨fun line hline raw hraw => (own_of_known_iff (hname line raw hraw)).mp
      (hfirst line hline raw (Option.mem_toList.mpr hraw)), hlater⟩
  · rintro ⟨hinherited, hlater⟩
    refine ⟨fun line hline raw hraw => ?_, hlater⟩
    have hmem := Option.mem_toList.mp hraw
    exact (own_of_known_iff (hname line raw hmem)).mpr (hinherited line hline raw hmem)

/-! ### Scripts -/

theorem perm_regular (content : List Char) :
    (((placedImports {} content).filter (·.isWorded)).map Placed.packaged ++
      ((placedImports {} content).filter (·.isBare)).map Placed.packaged).Perm
        (regular content) := by
  have hkinds := List.filter_append_perm (fun a : Placed => decide (a.form.kind ≠ .sideEffect))
    ((placedImports {} content).filter fun a => a.Regular)
  rw [List.filter_filter, List.filter_filter] at hkinds
  rw [← List.map_append, regular]
  refine List.Perm.map _ (List.Perm.trans (List.Perm.of_eq ?_) hkinds)
  congr 1
  · exact List.filter_congr fun a _ => by rw [Placed.isWorded, Bool.and_comm]
  · exact List.filter_congr fun a _ => by simp [Placed.isBare, Bool.and_comm]

/-- What the three patterns match on the lines of a text: each regular import once, and what the
second one matches. -/
theorem perm_entries_jsMatches {content : List Char} (hseparate : Separate content) :
    (entries jsMatches topLevelJsPackage (content.splitOn '\n')).Perm
      (regular content ++
        entries (execAll RE_JS_DYNAMIC) topLevelJsPackage (content.splitOn '\n')) := by
  have hworded : entries (execAll RE_JS_IMPORT) topLevelJsPackage (content.splitOn '\n') =
      ((placedImports {} content).filter (·.isWorded)).map Placed.packaged := by
    rw [entries, numbered_RE_JS_IMPORT hseparate, List.map_map]
    rfl
  have hbare : entries (fun line => (RE_JS_SIDE_EFFECT line).toList) topLevelJsPackage
      (content.splitOn '\n') =
        ((placedImports {} content).filter (·.isBare)).map Placed.packaged := by
    rw [entries, numbered_RE_JS_SIDE_EFFECT, List.map_map]
    rfl
  have hall := perm_entries_append
    (fun line => execAll RE_JS_IMPORT line ++ execAll RE_JS_DYNAMIC line)
    (fun line => (RE_JS_SIDE_EFFECT line).toList) topLevelJsPackage (content.splitOn '\n')
  have hglobal := perm_entries_append (execAll RE_JS_IMPORT) (execAll RE_JS_DYNAMIC)
    topLevelJsPackage (content.splitOn '\n')
  rw [hworded] at hglobal
  rw [hbare] at hall
  refine (hall.trans (hglobal.append_right _)).trans ?_
  rw [List.append_assoc]
  refine (List.Perm.append_left _ List.perm_append_comm).trans ?_
  rw [← List.append_assoc]
  exact (perm_regular content).append_right _

/-- The imports of packages in the table are those that are written as the patterns expect and the
others. -/
theorem perm_jsImports (renames : Renames) (content : List Char) :
    ((jsImports content).filter fun i => own renames i.2).Perm
      ((regular content).filter (fun i => listed renames i.2) ++ missed renames content) := by
  have hlisted : (jsImports content).filter (fun i => own renames i.2) =
      ((placedImports {} content).map Placed.packaged).filter fun i => listed renames i.2 := by
    rw [jsImports, List.filter_filter]
    exact List.filter_congr fun i _ => Bool.and_comm ..
  have hparts := List.filter_append_perm (fun a : Placed => decide a.Regular)
    (placedImports {} content)
  have hkept := (hparts.map Placed.packaged).filter fun i => listed renames i.2
  rw [List.map_append, List.filter_append] at hkept
  simp only [← decide_not] at hkept
  rw [hlisted]
  exact hkept.symm

theorem known_of_listed {renames : Renames} {pkg : String} (h : listed renames pkg = true) :
    known renames pkg = true := by
  rw [listed, Bool.and_eq_true, decide_eq_true_eq] at h
  exact known_of_own h.2 h.1

/-- What is known without being in the table is named like an inherited property. -/
theorem listed_of_known_iff {renames : Renames} {pkg : String} :
    (known renames pkg = true → listed renames pkg = true) ↔
      (pkg ∈ inheritedProperties → own renames pkg = true) := by
  rw [listed, Bool.and_eq_true, decide_eq_true_eq, known_iff]
  constructor
  · intro h hmem
    have hne : pkg ≠ "" := by
      rintro rfl
      exact absurd hmem (by decide)
    exact (h ⟨hne, .inr hmem⟩).2
  · exact fun h hknown => ⟨hknown.1, hknown.2.elim id h⟩

theorem reportedOnce_script_iff (renames : Renames) (file : String) {content : List Char}
    (hseparate : Separate content) :
    ReportedOnce renames (jsImports content) ((content.splitOn '\n').zipIdx.flatMap fun (line, i) =>
        scanJsLine line renames file i) ↔
      CleanScript renames content := by
  have hscan (line : List Char) (i : Nat) : scanJsLine line renames file i =
      (jsMatches line).filterMap fun spec =>
        check renames file i .typescript (topLevelJsPackage spec) := rfl
  have hmatches := (perm_entries_jsMatches hseparate).filter fun i => known renames i.2
  rw [List.filter_append] at hmatches
  have hmissed : ∀ i ∈ missed renames content, listed renames i.2 = true := fun i hi =>
    (List.mem_filter.mp hi).2
  have hfilters := Lists.perm_filter_append_iff (m := matchedAgain renames content)
    (l := regular content) (p := fun i => known renames i.2) (q := fun i => listed renames i.2)
    (fun i _ => known_of_listed) hmissed
  rw [ReportedOnce, reported_eq hscan, hmatches.congr_left, (perm_jsImports renames content).congr_right]
  refine hfilters.trans ⟨fun ⟨hinherited, hagain⟩ => ⟨?_, hagain⟩, fun h => ⟨?_, h.again⟩⟩
  · exact fun i hi => listed_of_known_iff.mp (hinherited i hi)
  · exact fun i hi => listed_of_known_iff.mpr (h.inherited i hi)

/-! ### The engine -/

namespace ImportLintEngine

variable (engine : ImportLintEngine)

theorem file_of_mem_scanFile {relPath content : String} :
    ∀ f ∈ engine.scanFile relPath content, f.file = relPath := by
  intro f hf
  have hcheck {renames : Renames} {i : Nat} {language : SourceLanguage} {pkg : String}
      (h : f ∈ check renames relPath i language pkg) : f.file = relPath := by
    rw [check] at h
    split at h
    · cases h
    · obtain ⟨entry, -, rfl⟩ := Option.map_eq_some_iff.mp h
      rfl
  obtain ⟨⟨line, i⟩, -, hf⟩ := List.mem_flatMap.mp hf
  dsimp only at hf
  split at hf
  · rw [scanPythonLine_eq] at hf
    obtain ⟨raw, -, hf⟩ := List.mem_filterMap.mp hf
    exact hcheck hf
  · obtain ⟨spec, -, hf⟩ := List.mem_filterMap.mp hf
    exact hcheck hf

theorem filter_findings_eq_nil {files : List (String × Option String)} {relPath : String}
    (hothers : ∀ file ∈ files, file.1 ≠ relPath) :
    ((files.filter fun file => engine.includeFilter file.1).flatMap engine.findingsIn).filter
      (·.file = relPath) = [] := by
  rw [List.filter_eq_nil_iff]
  intro f hf
  obtain ⟨⟨path, content⟩, hfile, hf⟩ := List.mem_flatMap.mp hf
  have hpath := hothers _ (List.mem_of_mem_filter hfile)
  cases content with
  | none => cases hf
  | some content =>
    rw [engine.file_of_mem_scanFile f hf]
    simpa using hpath

/-- The report has of each file what is found in it, whatever the other files are. -/
theorem details_of_file {front back : List (String × Option String)} {relPath content : String}
    (hfront : ∀ file ∈ front, file.1 ≠ relPath) (hback : ∀ file ∈ back, file.1 ≠ relPath)
    (hinclude : engine.includeFilter relPath = true) :
    (engine.emit (front ++ (relPath, some content) :: back)).details.filter (·.file = relPath) =
      (engine.scanFile relPath content).map detail := by
  have hall : (engine.scanFile relPath content).filter (·.file = relPath) =
      engine.scanFile relPath content :=
    List.filter_eq_self.mpr fun f hf => by simpa using engine.file_of_mem_scanFile f hf
  have hpath : ((fun d : Detail => decide (d.file = relPath)) ∘ detail) =
      fun f : ImportFinding => decide (f.file = relPath) := rfl
  have hfile : ((relPath, some content) :: back).filter (fun file => engine.includeFilter file.1) =
      (relPath, some content) :: back.filter fun file => engine.includeFilter file.1 :=
    List.filter_cons_of_pos hinclude
  simp only [emit, List.filter_map, hpath, List.filter_append, hfile, List.flatMap_append,
    List.flatMap_cons, engine.filter_findings_eq_nil hfront, engine.filter_findings_eq_nil hback,
    findingsIn, hall, List.nil_append, List.append_nil]

end ImportLintEngine

/-- Some of the packages that are in the table by default. -/
def builtin : ImportLintEngine where
  pythonRenames := [("urllib2", ⟨"urllib.request", "Python 3 (2008)",
    "urllib2 was renamed to urllib.request in Python 3."⟩)]
  typescriptRenames := [("glob", ⟨"fast-glob or tinyglobby", "stable",
    "The 'glob' package is the classic."⟩)]

end KirkForge.ImportLint
