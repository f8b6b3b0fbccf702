import KirkForge.Orchestrator.ArtifactProtocol
import KirkForge.Theory.JsonText
import KirkForge.Theory.Lines
import KirkForge.Theory.Occurrence

/-!
# Artifacts as JSONL

A list of files that is written as one object for each line is read back as it is, and whatever the
output, a file that is accepted stands on a line with the hash of its content
(`jsonl_round_trip_and_integrity`). No line at all is no strict output, and files that are read by
the marker protocol have no hash.
-/

namespace KirkForge

variable {env : ArtifactEnv} {artifacts : List ParsedArtifact} {a : ParsedArtifact}
  {output line path content : String} {obj : Json}

/-! ### The encoding -/

/-- A `JsonlArtifact` for a file. -/
def jsonlArtifact (env : ArtifactEnv) (a : ParsedArtifact) : Json :=
  .obj [("type", .str "file_write"), ("path", .str a.filePath),
    ("sha256", .str (env.sha256Of a.content)),
    ("content_b64", .str (Encoding.encodeBase64 (Encoding.encodeUtf8 a.content)))]

def jsonlLine (env : ArtifactEnv) (a : ParsedArtifact) : String :=
  String.ofList (JsValue.stringify (jsonlArtifact env a))

/-- The output has a line for each file, with or without a newline at the end. -/
def Encodes (env : ArtifactEnv) (artifacts : List ParsedArtifact) (output : String) : Prop :=
  let lines := artifacts.map (jsonlLine env)
  output = Text.join "\n" lines ∨ output = Text.unlines lines

theorem newline_notMem_jsonlLine : '\n' ∉ (jsonlLine env a).toList := by
  rw [jsonlLine, String.toList_ofList]
  exact Json.newline_notMem_stringify _

theorem trim_jsonlLine : Text.trim (jsonlLine env a) = jsonlLine env a := by
  have hhead : (JsValue.stringify (jsonlArtifact env a)).head? = some '\x7b' := rfl
  have hlast : (JsValue.stringify (jsonlArtifact env a)).getLast? = some '\x7d' :=
    List.getLast?_concat
  have htrim :
      Text.trimEnd (Text.trimStart ([] ++ (JsValue.stringify (jsonlArtifact env a) ++ []))) =
        JsValue.stringify (jsonlArtifact env a) ++ [] :=
    Text.trim_around hhead hlast (by decide) (by decide)
  rw [List.nil_append, List.append_nil] at htrim
  rw [Text.trim, jsonlLine, String.toList_ofList, htrim]

theorem parse_jsonlLine : Json.parse (jsonlLine env a) = some (jsonlArtifact env a) := by
  have hkeys : ["type", "path", "sha256", "content_b64"].Nodup := by decide
  exact Json.parse_stringify ⟨hkeys, trivial, trivial, trivial, trivial, trivial⟩

theorem opensObject_jsonlLine : opensObject (jsonlLine env a) = true := by
  rw [opensObject_iff, trim_jsonlLine, jsonlLine, String.toList_ofList]
  rfl

/-- The line of a file is read as the file. -/
theorem parseLine_jsonlLine (hsha : env.sha256Of a.content ≠ "")
    (hpath : Text.trim a.filePath = a.filePath) (i : Nat) :
    parseLine env i (jsonlLine env a) = { artifact := some a } := by
  have hblank : jsonlLine env a ≠ "" := by
    intro h
    exact not_blank_of_opensObject opensObject_jsonlLine (trim_jsonlLine.trans h)
  have hcontent : fileContent env i (jsonlArtifact env a) a.filePath = .ok (a.content, []) := by
    rw [fileContent, show ((jsonlArtifact env a).get? "content_b64").bind Json.str? =
      some (Encoding.encodeBase64 (Encoding.encodeUtf8 a.content)) from rfl]
    dsimp only
    rw [if_pos (Encoding.isBase64_encodeBase64 Encoding.mem_encodeUtf8),
      Encoding.decodeBase64_encodeBase64 Encoding.mem_encodeUtf8, Encoding.decodeUtf8_encodeUtf8]
  have hhash : (((jsonlArtifact env a).get? "sha256").bind Json.str?).filter (· ≠ "") =
      some (env.sha256Of a.content) := by
    rw [show ((jsonlArtifact env a).get? "sha256").bind Json.str? =
      some (env.sha256Of a.content) from rfl]
    exact Option.filter_eq_some_iff.mpr ⟨rfl, decide_eq_true hsha⟩
  rw [parseLine, trim_jsonlLine, if_neg hblank, if_pos opensObject_jsonlLine, parse_jsonlLine]
  change parseObject env i (jsonlArtifact env a) = _
  rw [parseObject,
    show ((jsonlArtifact env a).get? "type").bind Json.str? = some "file_write" from rfl,
    show ((jsonlArtifact env a).get? "path").bind Json.str? = some a.filePath from rfl]
  change fileWrite env i (jsonlArtifact env a) a.filePath = _
  rw [fileWrite, hcontent]
  dsimp only
  rw [hhash, hpath]
  exact if_neg (not_not.mpr rfl)

/-! ### Reading the lines -/

theorem toList_join (lines : List String) :
    (Text.join "\n" lines).toList = Text.joinLines lines := by
  rw [Text.join, String.toList_intercalate]
  rfl

/-- A newline at the end gives an empty line. -/
theorem outputLines_of_encodes (h : Encodes env artifacts output) :
    outputLines output = artifacts.map (jsonlLine env) ∨
      outputLines output = artifacts.map (jsonlLine env) ++ [""] := by
  have hline : ∀ line ∈ artifacts.map (jsonlLine env), '\n' ∉ line.toList := by
    intro line hmem
    obtain ⟨a, -, rfl⟩ := List.mem_map.mp hmem
    exact newline_notMem_jsonlLine
  rw [Encodes] at h
  generalize artifacts.map (jsonlLine env) = lines at h hline
  by_cases hne : lines = []
  · subst hne
    rcases h with rfl | rfl <;> exact .inr rfl
  rcases h with rfl | rfl
  · have hjoin := Text.split_joinLines hline hne
    rw [← toList_join, String.ofList_toList] at hjoin
    exact .inl hjoin
  · have hall : ∀ line ∈ lines ++ [""], '\n' ∉ line.toList :=
      List.forall_mem_append.mpr ⟨hline, List.forall_mem_singleton.mpr (by decide)⟩
    have hjoin := Text.split_joinLines hall (List.append_ne_nil_of_left_ne_nil hne _)
    rw [Text.joinLines_concat_nil hne, ← Text.toList_unlines lines hne,
      String.ofList_toList] at hjoin
    exact .inr hjoin

/-- The loop over the lines of the files. -/
theorem foldl_jsonlLine (hsha : ∀ content, env.sha256Of content ≠ "")
    (hpaths : ∀ a ∈ artifacts, Text.trim a.filePath = a.filePath) (i : Nat) (r : ParseResult) :
    ((artifacts.map (jsonlLine env)).zipIdx i).foldl
        (fun r line => r.add (parseLine env line.2 line.1)) r =
      { r with artifacts := r.artifacts ++ artifacts } := by
  induction artifacts generalizing i r with
  | nil => simp
  | cons a artifacts ih =>
    obtain ⟨hpath, hpaths⟩ := List.forall_mem_cons.mp hpaths
    rw [List.map_cons, List.zipIdx_cons, List.foldl_cons, parseLine_jsonlLine (hsha _) hpath,
      ih hpaths]
    simp [ParseResult.add]

theorem jsonlLines_of_encodes (hsha : ∀ content, env.sha256Of content ≠ "")
    (hpaths : ∀ a ∈ artifacts, Text.trim a.filePath = a.filePath)
    (h : Encodes env artifacts output) : jsonlLines env output = ⟨artifacts, true, []⟩ := by
  have hblank (i : Nat) : parseLine env i "" = {} := rfl
  rw [jsonlLines]
  rcases outputLines_of_encodes h with hlines | hlines
  · rw [← outputLines, hlines, foldl_jsonlLine hsha hpaths]
    rfl
  · rw [← outputLines, hlines, List.zipIdx_append, List.foldl_append, foldl_jsonlLine hsha hpaths]
    simp [hblank, ParseResult.add]

/-- Without a file the output is empty, and that is strict only for the marker protocol. -/
theorem parse_of_encodes (hsha : ∀ content, env.sha256Of content ≠ "")
    (hpaths : ∀ a ∈ artifacts, Text.trim a.filePath = a.filePath)
    (hne : artifacts ≠ [] ∨ env.allowMarkerArtifactFallback = true)
    (h : Encodes env artifacts output) :
    parseJsonlArtifacts env output = ⟨artifacts, true, []⟩ := by
  have hlines := jsonlLines_of_encodes hsha hpaths h
  unfold parseJsonlArtifacts
  simp only [hlines]
  by_cases hnil : artifacts = []
  · subst hnil
    have hempty : output = "" := by rcases h with rfl | rfl <;> rfl
    rw [if_neg (by simp), if_pos (hne.resolve_left (not_not.mpr rfl)), hempty]
    rfl
  · rw [if_pos (List.length_pos_iff.mpr hnil)]

/-! ### Integrity -/

/-- The line is an object that writes the file, with the hash of its content. -/
def Declares (env : ArtifactEnv) (line : String) (a : ParsedArtifact) : Prop :=
  ∃ obj path, Json.parse (Text.trim line) = some obj ∧
    obj.get? "type" = some (.str "file_write") ∧ obj.get? "path" = some (.str path) ∧
    a.filePath = Text.trim path ∧ HasContent env obj a.content ∧ HasHash env obj a.content

theorem fileWrite_artifact {i : Nat} (h : (fileWrite env i obj path).artifact = some a) :
    a.filePath = Text.trim path ∧ HasContent env obj a.content ∧ HasHash env obj a.content := by
  have hspec := fileContent_spec env i obj path
  rw [fileWrite] at h
  cases hc : fileContent env i obj path with
  | error warning => rw [hc] at h; cases h
  | ok r =>
    rw [hc] at h hspec
    dsimp only at h hspec
    cases hsha : ((obj.get? "sha256").bind Json.str?).filter (· ≠ "") with
    | none => rw [hsha] at h; cases h
    | some hash =>
      obtain ⟨hstr, hne⟩ := Option.filter_eq_some_iff.mp hsha
      rw [hsha] at h
      dsimp only at h
      split at h
      · cases h
      · next hmatch =>
        cases h
        have hmatch := not_not.mp hmatch
        refine ⟨rfl, (hspec r.1).mpr rfl, ?_, ?_⟩
        · exact hmatch ▸ str?_eq_some.mp hstr
        · exact hmatch ▸ of_decide_eq_true hne

theorem parseLine_artifact {i : Nat} (h : (parseLine env i line).artifact = some a) :
    Declares env line a := by
  rw [parseLine] at h
  split at h
  · cases h
  split at h
  · cases hparse : Json.parse (Text.trim line) with
    | none => rw [hparse] at h; cases h
    | some obj =>
      rw [hparse] at h
      dsimp only at h
      rw [parseObject] at h
      split at h
      · next path htype hpath =>
        obtain ⟨hfile, hcontent, hhash⟩ := fileWrite_artifact h
        exact ⟨obj, path, hparse, str?_eq_some.mp htype, str?_eq_some.mp hpath, hfile, hcontent,
          hhash⟩
      · rw [otherObject] at h
        repeat' split at h
        all_goals cases h
  · cases h

theorem declared_of_mem_jsonlLines (h : a ∈ (jsonlLines env output).artifacts) :
    ∃ line ∈ outputLines output, Declares env line a := by
  rw [jsonlLines, artifacts_foldl_add, List.nil_append, List.mem_filterMap] at h
  obtain ⟨⟨line, i⟩, hline, h⟩ := h
  exact ⟨line, List.fst_mem_of_mem_zipIdx hline, parseLine_artifact h⟩

/-- An artifact of another origin is one of the marker protocol, which has been opted in. -/
theorem declared_or_marker (h : a ∈ (parseJsonlArtifacts env output).artifacts) :
    (∃ line ∈ outputLines output, Declares env line a) ∨
      env.allowMarkerArtifactFallback = true ∧ ¬∃ line ∈ outputLines output, Valid env line := by
  unfold parseJsonlArtifacts at h
  dsimp only at h
  split at h
  · exact .inl (declared_of_mem_jsonlLines h)
  next hnone =>
  split at h
  · next hfallback =>
    have hlines := (jsonlLines_spec env output).1
    exact .inr ⟨hfallback, fun hvalid => hnone (List.length_pos_iff.mpr (hlines.mpr hvalid))⟩
  · split at h <;> cases h

/-- The encoding is read back, and without the marker protocol every artifact has been declared. -/
theorem jsonl_round_trip_and_integrity (env : ArtifactEnv)
    (hsha : ∀ content, env.sha256Of content ≠ "") :
    (∀ artifacts output, (∀ a ∈ artifacts, Text.trim a.filePath = a.filePath) →
      (artifacts ≠ [] ∨ env.allowMarkerArtifactFallback = true) → Encodes env artifacts output →
        parseJsonlArtifacts env output = ⟨artifacts, true, []⟩) ∧
      ∀ output, ∀ a ∈ (parseJsonlArtifacts env output).artifacts,
        (∃ line ∈ outputLines output, Declares env line a) ∨
          env.allowMarkerArtifactFallback = true ∧ ¬∃ line ∈ outputLines output, Valid env line :=
  ⟨fun _ _ hpaths hne h => parse_of_encodes hsha hpaths hne h, fun _ _ h => declared_or_marker h⟩

/-- An environment whose hash is right for the empty file and for one line. -/
def oneLineEnv : ArtifactEnv where
  allowLegacyJsonlContent := false
  allowMarkerArtifactFallback := false
  sha256Of content :=
    if content = "" then "e3b0c44298fc1c149afbf4c8996fb92427ae41e4649b934ca495991b7852b855"
    else "edd3a863872a04239eb29ad4bc12fc892b3d4ae57cc7e786a3697816f8e141c2"
  numberText _ := "0"

theorem jsonl_round_trip_of_two_files :
    let artifacts : List ParsedArtifact := [⟨"a.txt", ""⟩, ⟨"b.txt", "é\n"⟩]
    parseJsonlArtifacts oneLineEnv (Text.join "\n" (artifacts.map (jsonlLine oneLineEnv))) =
      ⟨artifacts, true, []⟩ := by
  have hsha (content : String) : oneLineEnv.sha256Of content ≠ "" := by
    simp only [oneLineEnv]
    split <;> decide
  exact (jsonl_round_trip_and_integrity oneLineEnv hsha).1 _ _ (by decide +kernel)
    (.inl (List.cons_ne_nil _ _)) (.inl rfl)

/-- The empty list is not read back, and a marker block has no hash at all. -/
theorem jsonl_exceptions :
    (∃ artifacts output, (∀ a ∈ artifacts, Text.trim a.filePath = a.filePath) ∧
      Encodes oneLineEnv artifacts output ∧
        parseJsonlArtifacts oneLineEnv output ≠ ⟨artifacts, true, []⟩) ∧
      let env := { oneLineEnv with allowMarkerArtifactFallback := true }
      ∃ output, ∃ a ∈ (parseJsonlArtifacts env output).artifacts,
        ¬∃ line ∈ outputLines output, Declares env line a := by
  refine ⟨⟨[], "", List.forall_mem_nil _, .inl rfl, by decide +kernel⟩, ?_⟩
  intro env
  have hartifacts : (parseJsonlArtifacts env "### FILE: a\n### END").artifacts = [⟨"a", "\n"⟩] := by
    decide +kernel
  refine ⟨_, ⟨"a", "\n"⟩, by rw [hartifacts]; exact List.mem_singleton_self _, ?_⟩
  rintro ⟨line, hline, obj, path, hparse, -⟩
  have hnone : ∀ line ∈ outputLines "### FILE: a\n### END", Json.parse (Text.trim line) = none := by
    decide +kernel
  rw [hnone line hline] at hparse
  cases hparse

end KirkForge
