import KirkForge.Orchestrator.ArtifactMode

/-!
# The JSONL protocol

Each line of an output is blank, valid, silent or violating (`parseLine_spec`): a silent line is an
object without a type, which the parser passes over without a word. The parser reports strict
termination for outputs with such a line, and for every output that has an object line but no valid
one (`strictTermination_iff`); for all others the protocol is enforced (`protocolStrict_iff`).
-/

namespace KirkForge

variable {env : ArtifactEnv} {output line path content : String} {obj : Json} {i : Nat}

/-! ### The lines -/

def Blank (line : String) : Prop := Text.trim line = ""

/-- The object has the content, in a field from which it may be taken. -/
def HasContent (env : ArtifactEnv) (obj : Json) (content : String) : Prop :=
  (∃ b64, obj.get? "content_b64" = some (.str b64) ∧ Encoding.isBase64 b64 = true ∧
    content = Encoding.decodeUtf8 (Encoding.decodeBase64 b64)) ∨
  ((∀ b64, obj.get? "content_b64" ≠ some (.str b64)) ∧ obj.get? "content" = some (.str content) ∧
    env.allowLegacyJsonlContent = true)

/-- The hash of the object is there and is that of the content. -/
def HasHash (env : ArtifactEnv) (obj : Json) (content : String) : Prop :=
  obj.get? "sha256" = some (.str (env.sha256Of content)) ∧ env.sha256Of content ≠ ""

/-- The object is a file to write. -/
def Writes (env : ArtifactEnv) (obj : Json) : Prop :=
  obj.get? "type" = some (.str "file_write") ∧ (∃ path, obj.get? "path" = some (.str path)) ∧
    ∃ content, HasContent env obj content ∧ HasHash env obj content

/-- The line is a JSON object that keeps to the protocol. -/
def Valid (env : ArtifactEnv) (line : String) : Prop :=
  ∃ fields, Json.parse (Text.trim line) = some (.obj fields) ∧ Writes env (.obj fields)

/-- The line is a JSON object without a type. -/
def Silent (line : String) : Prop :=
  ∃ fields, Json.parse (Text.trim line) = some (.obj fields) ∧ (Json.obj fields).get? "type" = none

/-- The line breaks the protocol in a way that is recorded. -/
def Violating (env : ArtifactEnv) (line : String) : Prop :=
  ¬Blank line ∧ ¬Valid env line ∧ ¬Silent line

theorem str?_eq_some {o : Option Json} {s : String} :
    o.bind Json.str? = some s ↔ o = some (.str s) := by
  rcases o with - | (- | - | - | - | - | -) <;> simp [Json.str?]

theorem str?_eq_none {o : Option Json} :
    o.bind Json.str? = none ↔ ∀ s, o ≠ some (.str s) := by
  rcases o with - | (- | - | - | - | - | -) <;> simp [Json.str?]

theorem fileContent_spec (env : ArtifactEnv) (i : Nat) (obj : Json) (path : String) :
    match fileContent env i obj path with
    | .ok r => ∀ content, HasContent env obj content ↔ content = r.1
    | .error _ => ∀ content, ¬HasContent env obj content := by
  rw [fileContent]
  cases hb64 : (obj.get? "content_b64").bind Json.str? with
  | some b64 =>
    have hget := str?_eq_some.mp hb64
    have hiff (content : String) : HasContent env obj content ↔ Encoding.isBase64 b64 = true ∧
        content = Encoding.decodeUtf8 (Encoding.decodeBase64 b64) := by
      simp [HasContent, hget]
    dsimp only
    by_cases hvalid : Encoding.isBase64 b64 = true
    · rw [if_pos hvalid]
      exact fun content => (hiff content).trans (and_iff_right hvalid)
    · rw [if_neg hvalid]
      exact fun content h => hvalid ((hiff content).mp h).1
  | none =>
    have hnone := str?_eq_none.mp hb64
    have hiff (content : String) : HasContent env obj content ↔
        obj.get? "content" = some (.str content) ∧ env.allowLegacyJsonlContent = true := by
      simp [HasContent, hnone]
    cases hcontent : (obj.get? "content").bind Json.str? with
    | some legacy =>
      have hget := str?_eq_some.mp hcontent
      dsimp only
      by_cases hallow : env.allowLegacyJsonlContent = true
      · rw [if_pos hallow]
        intro content
        rw [hiff, hget, and_iff_left hallow, Option.some.injEq, Json.str.injEq, eq_comm]
      · rw [if_neg hallow]
        exact fun content h => hallow ((hiff content).mp h).2
    | none => exact fun content h => str?_eq_none.mp hcontent content ((hiff content).mp h).1

/-- What a line of the given kind adds. -/
def Adds (r : LineResult) (valid violates : Prop) : Prop :=
  (r.artifact.isSome = true ↔ valid) ∧ (r.violates = true ↔ violates)

theorem adds_violation (warnings : List String) {valid violates : Prop} (hvalid : ¬valid)
    (hviolates : violates) : Adds (violation warnings) valid violates :=
  ⟨iff_of_false nofun hvalid, iff_of_true rfl hviolates⟩

theorem adds_nothing {valid violates : Prop} (hvalid : ¬valid) (hviolates : ¬violates) :
    Adds {} valid violates :=
  ⟨iff_of_false nofun hvalid, iff_of_false nofun hviolates⟩

variable (env i) in
theorem fileWrite_adds (htype : obj.get? "type" = some (.str "file_write"))
    (hpath : obj.get? "path" = some (.str path)) :
    Adds (fileWrite env i obj path) (Writes env obj) (¬Writes env obj) := by
  have hwrites : Writes env obj ↔ ∃ content, HasContent env obj content ∧ HasHash env obj content :=
    ⟨fun h => h.2.2, fun h => ⟨htype, ⟨path, hpath⟩, h⟩⟩
  have hspec := fileContent_spec env i obj path
  rw [fileWrite]
  cases hc : fileContent env i obj path with
  | error warning =>
    rw [hc] at hspec
    have hnot : ¬Writes env obj := fun h => by
      obtain ⟨content, hcontent, -⟩ := hwrites.mp h
      exact hspec content hcontent
    exact adds_violation _ hnot hnot
  | ok r =>
    obtain ⟨content, warnings⟩ := r
    have hspec : ∀ c, HasContent env obj c ↔ c = content := by rw [hc] at hspec; exact hspec
    have hhash : Writes env obj ↔ HasHash env obj content := by
      rw [hwrites]
      constructor
      · rintro ⟨c, hc, hh⟩
        rwa [(hspec c).mp hc] at hh
      · exact fun hh => ⟨content, (hspec content).mpr rfl, hh⟩
    dsimp only
    cases hsha : ((obj.get? "sha256").bind Json.str?).filter (· ≠ "") with
    | none =>
      have hnot : ¬Writes env obj := fun h => by
        obtain ⟨hget, hne⟩ := hhash.mp h
        rw [hget] at hsha
        simp [Json.str?, hne] at hsha
      exact adds_violation _ hnot hnot
    | some hash =>
      obtain ⟨hstr, hne⟩ := Option.filter_eq_some_iff.mp hsha
      have hget := str?_eq_some.mp hstr
      dsimp only
      split
      · next hmismatch =>
        have hnot : ¬Writes env obj := fun h => by
          have hsame := hget.symm.trans (hhash.mp h).1
          exact hmismatch (Json.str.inj (Option.some.inj hsame)).symm
        exact adds_violation _ hnot hnot
      · next hmatch =>
        have hmatch : env.sha256Of content = hash := not_not.mp hmatch
        have hyes : Writes env obj := hhash.mpr ⟨hmatch ▸ hget, hmatch ▸ of_decide_eq_true hne⟩
        exact ⟨iff_of_true rfl hyes, iff_of_false nofun (not_not.mpr hyes)⟩

variable (env i obj) in
theorem parseObject_adds :
    Adds (parseObject env i obj) (Writes env obj)
      (¬Writes env obj ∧ obj.get? "type" ≠ none) := by
  rw [parseObject]
  split
  · next path htype hpath =>
    have htype := str?_eq_some.mp htype
    obtain ⟨hvalid, hviolates⟩ := fileWrite_adds env i htype (str?_eq_some.mp hpath)
    have hsome : obj.get? "type" ≠ none := htype ▸ Option.some_ne_none _
    exact ⟨hvalid, hviolates.trans (and_iff_left hsome).symm⟩
  · next hother =>
    have hnot : ¬Writes env obj := by
      rintro ⟨htype, ⟨path, hpath⟩, -⟩
      exact hother path (str?_eq_some.mpr htype) (str?_eq_some.mpr hpath)
    rw [otherObject]
    split
    · next htype => exact adds_nothing hnot fun h => h.2 htype
    · next type htype =>
      have hsome : obj.get? "type" ≠ none := htype ▸ Option.some_ne_none _
      split
      · exact adds_violation _ hnot ⟨hnot, hsome⟩
      · exact adds_violation _ hnot ⟨hnot, hsome⟩

/-- A trimmed line is read from its first character on. -/
theorem skipSpace_trim (line : String) :
    Json.skipSpace (Text.trim line).toList = (Text.trim line).toList := by
  cases hcs : (Text.trim line).toList with
  | nil => rfl
  | cons c cs =>
    have hc : Text.isWhitespace c = false := Text.not_isWhitespace_of_trim (by rw [hcs]; rfl)
    refine List.dropWhile_cons_of_neg fun hspace => ?_
    simp only [Json.isSpace, Bool.or_eq_true, decide_eq_true_eq] at hspace
    rcases hspace with ((rfl | rfl) | rfl) | rfl <;> exact absurd hc (by decide)

theorem opensObject_iff : opensObject line = true ↔ (Text.trim line).toList.head? = some '{' := by
  rw [opensObject, Text.startsWith]
  cases (Text.trim line).toList with
  | nil => decide
  | cons c cs =>
    rw [show r"{".toList = ['{'] from rfl, List.isPrefixOf_cons_cons, List.isPrefixOf_nil_left,
      Bool.and_true, beq_iff_eq, List.head?_cons, Option.some.injEq, eq_comm]

theorem opensObject_iff_obj (hparse : Json.parse (Text.trim line) = some obj) :
    opensObject line = true ↔ ∃ fields, obj = .obj fields := by
  rw [opensObject_iff, Json.parse_eq_obj_iff hparse, skipSpace_trim]

theorem Valid.opensObject (h : Valid env line) : opensObject line = true := by
  obtain ⟨fields, hparse, -⟩ := h
  exact (opensObject_iff_obj hparse).mpr ⟨fields, rfl⟩

theorem Silent.opensObject (h : Silent line) : KirkForge.opensObject line = true := by
  obtain ⟨fields, hparse, -⟩ := h
  exact (opensObject_iff_obj hparse).mpr ⟨fields, rfl⟩

theorem not_blank_of_opensObject (h : opensObject line = true) : ¬Blank line := by
  intro hblank
  rw [opensObject_iff, show Text.trim line = "" from hblank] at h
  cases h

theorem parseLine_adds (env : ArtifactEnv) (i : Nat) (line : String) :
    Adds (parseLine env i line) (Valid env line) (Violating env line) := by
  rw [parseLine]
  by_cases hblank : Text.trim line = ""
  · rw [if_pos hblank]
    exact adds_nothing (fun h => not_blank_of_opensObject h.opensObject hblank)
      fun h => h.1 hblank
  rw [if_neg hblank]
  by_cases hopens : opensObject line = true
  · rw [if_pos hopens]
    cases hparse : Json.parse (Text.trim line) with
    | none =>
      have hvalid : ¬Valid env line := fun ⟨_, h, _⟩ => nomatch hparse.symm.trans h
      have hsilent : ¬Silent line := fun ⟨_, h, _⟩ => nomatch hparse.symm.trans h
      exact adds_violation _ hvalid ⟨hblank, hvalid, hsilent⟩
    | some obj =>
      obtain ⟨fields, rfl⟩ := (opensObject_iff_obj hparse).mp hopens
      have hvalid : Valid env line ↔ Writes env (.obj fields) := by
        simp [Valid, hparse]
      have hsilent : Silent line ↔ (Json.obj fields).get? "type" = none := by
        simp [Silent, hparse]
      obtain ⟨hartifact, hviolates⟩ := parseObject_adds env (.obj fields) i
      refine ⟨hartifact.trans hvalid.symm, hviolates.trans ?_⟩
      rw [Violating, hvalid, hsilent]
      exact (and_iff_right hblank).symm
  · rw [if_neg hopens]
    have hvalid : ¬Valid env line := fun h => hopens h.opensObject
    exact adds_violation _ hvalid ⟨hblank, hvalid, fun h => hopens h.opensObject⟩

/-! ### The flag -/

/-- The artifacts are those of the lines, one after the other. -/
theorem artifacts_foldl_add {α : Type*} (f : α → LineResult) (ls : List α) (r : ParseResult) :
    (ls.foldl (fun r a => r.add (f a)) r).artifacts =
      r.artifacts ++ ls.filterMap fun a => (f a).artifact := by
  induction ls generalizing r with
  | nil => exact (List.append_nil _).symm
  | cons a ls ih =>
    rw [List.foldl_cons, ih, List.filterMap_cons, ParseResult.add, List.append_assoc]
    cases (f a).artifact <;> rfl

theorem strict_foldl_add {α : Type*} (f : α → LineResult) (ls : List α) (r : ParseResult) :
    (ls.foldl (fun r a => r.add (f a)) r).strictTermination = true ↔
      r.strictTermination = true ∧ ∀ a ∈ ls, (f a).violates ≠ true := by
  induction ls generalizing r with
  | nil => simp
  | cons a ls ih =>
    refine (ih (r.add (f a))).trans ?_
    simp [ParseResult.add, and_assoc]

def outputLines (output : String) : List String := Text.split '\n' output

theorem jsonlLines_spec (env : ArtifactEnv) (output : String) :
    ((jsonlLines env output).artifacts ≠ [] ↔ ∃ line ∈ outputLines output, Valid env line) ∧
      ((jsonlLines env output).strictTermination = true ↔
        ∀ line ∈ outputLines output, ¬Violating env line) := by
  have hartifacts := artifacts_foldl_add (fun l : String × Nat => parseLine env l.2 l.1)
    (outputLines output).zipIdx ⟨[], true, []⟩
  have hstrict := strict_foldl_add (fun l : String × Nat => parseLine env l.2 l.1)
    (outputLines output).zipIdx ⟨[], true, []⟩
  have hlines : (outputLines output).zipIdx.map Prod.fst = outputLines output :=
    List.zipIdx_map_fst ..
  have hmem (line : String) :
      line ∈ outputLines output ↔ ∃ l ∈ (outputLines output).zipIdx, l.1 = line := by
    conv_lhs => rw [← hlines]
    exact List.mem_map
  have hvalid (l : String × Nat) := (parseLine_adds env l.2 l.1).1
  have hviolates (l : String × Nat) := (parseLine_adds env l.2 l.1).2
  refine ⟨?_, hstrict.trans ?_⟩
  · have hnil : (jsonlLines env output).artifacts ≠ [] ↔
        ∃ l ∈ (outputLines output).zipIdx, (parseLine env l.2 l.1).artifact.isSome = true := by
      rw [jsonlLines, ← outputLines, hartifacts, List.nil_append, Ne,
        List.filterMap_eq_nil_iff]
      simp [Option.isSome_iff_ne_none]
    simp only [hnil, hvalid, hmem, exists_exists_and_eq_and]
  · simp only [hviolates, ne_eq, true_and, hmem, forall_exists_index, and_imp,
      forall_apply_eq_imp_iff₂]

/-- With a valid line the flag is that of the loop. -/
theorem strictTermination_of_valid (h : ∃ line ∈ outputLines output, Valid env line) :
    (parseJsonlArtifacts env output).strictTermination = true ↔
      ∀ line ∈ outputLines output, ¬Violating env line := by
  obtain ⟨hartifacts, hstrict⟩ := jsonlLines_spec env output
  simp only [parseJsonlArtifacts]
  rw [if_pos (List.length_pos_iff.mpr (hartifacts.mpr h)), hstrict]

/-- Without one the flag only tells whether there is an object line. -/
theorem strictTermination_of_none (hfallback : env.allowMarkerArtifactFallback = false)
    (h : ¬∃ line ∈ outputLines output, Valid env line) :
    (parseJsonlArtifacts env output).strictTermination = true ↔
      ∃ line ∈ outputLines output, opensObject line = true := by
  obtain ⟨hartifacts, -⟩ := jsonlLines_spec env output
  simp only [parseJsonlArtifacts, hfallback, Bool.false_eq_true, if_false]
  rw [if_neg fun hlength => h (hartifacts.mp (List.length_pos_iff.mp hlength)), ← List.any_eq_true]
  split
  · next hany => exact iff_of_true rfl hany
  · next hany => exact iff_of_false nofun hany

/-! ### The protocol -/

/-- What the protocol promises for an output. -/
structure ProtocolStrict (env : ArtifactEnv) (output : String) : Prop where
  strict : (parseJsonlArtifacts env output).strictTermination = true →
    (∃ line ∈ outputLines output, ¬Blank line) ∧
      ∀ line ∈ outputLines output, ¬Blank line → Valid env line
  blocks : (∃ line ∈ outputLines output, ¬Blank line ∧ ¬Valid env line) →
    ∀ (World : Type) (writeArtifacts : List ParsedArtifact → World → World × List WriteResult)
      (taskId now : String) (profile : Option TaskProfile) (emission : Emission) (world : World),
      emission.content = output →
        ∃ dr, executeArtifact env writeArtifacts taskId now profile (.ok emission) world =
            (world, .ok dr) ∧
          ∃ sig ∈ dr.signals, ∃ value, sig.value = .artifactUnterminated value

/-- The violations in the output are of the kinds that are recorded. -/
structure Recorded (env : ArtifactEnv) (output : String) : Prop where
  mixed : (∃ line ∈ outputLines output, Valid env line) →
    (∃ line ∈ outputLines output, Violating env line) ∨
      ∀ line ∈ outputLines output, ¬Silent line
  none : (∀ line ∈ outputLines output, ¬Valid env line) →
    ∀ line ∈ outputLines output, opensObject line = false

theorem executeArtifact_blocks {World : Type}
    (writeArtifacts : List ParsedArtifact → World → World × List WriteResult)
    (taskId now : String) (profile : Option TaskProfile) {emission : Emission} (world : World)
    (h : (parseJsonlArtifacts env emission.content).strictTermination = false) :
    ∃ dr, executeArtifact env writeArtifacts taskId now profile (.ok emission) world =
        (world, .ok dr) ∧
      ∃ sig ∈ dr.signals, ∃ value, sig.value = .artifactUnterminated value := by
  simp only [executeArtifact, h, true_or, if_true]
  refine ⟨_, rfl, ?_⟩
  simp only [List.mem_append]
  exact ⟨_, .inl (.inl (.inr (.head _))), _, rfl⟩

theorem protocolStrict_iff (env : ArtifactEnv) (output : String)
    (hfallback : env.allowMarkerArtifactFallback = false) :
    ProtocolStrict env output ↔ Recorded env output := by
  have hvalid_iff (line : String) (hviolating : ¬Violating env line) (hsilent : ¬Silent line)
      (hblank : ¬Blank line) : Valid env line :=
    by_contra fun hvalid => hviolating ⟨hblank, hvalid, hsilent⟩
  constructor
  · rintro ⟨hstrict, -⟩
    refine ⟨fun hsome => ?_, fun hnone line hline => ?_⟩
    · by_contra hneither
      obtain ⟨hviolating, hsilent⟩ := not_or.mp hneither
      refine hsilent fun line hline hs => ?_
      have hall := (hstrict ((strictTermination_of_valid hsome).mpr fun l hl hv =>
        hviolating ⟨l, hl, hv⟩)).2
      obtain ⟨fields, hparse, htype⟩ := hs
      obtain ⟨fields', hparse', hwrites⟩ :=
        hall line hline (not_blank_of_opensObject (Silent.opensObject ⟨fields, hparse, htype⟩))
      cases hparse.symm.trans hparse'
      cases htype.symm.trans hwrites.1
    · by_contra hopens
      have hopens := eq_true_of_ne_false hopens
      have hnone' : ¬∃ line ∈ outputLines output, Valid env line :=
        fun ⟨l, hl, hv⟩ => hnone l hl hv
      have hall := (hstrict ((strictTermination_of_none hfallback hnone').mpr
        ⟨line, hline, hopens⟩)).2
      exact hnone line hline (hall line hline (not_blank_of_opensObject hopens))
  · rintro ⟨hmixed, hnone⟩
    have hstrict (h : (parseJsonlArtifacts env output).strictTermination = true) :
        (∃ line ∈ outputLines output, ¬Blank line) ∧
          ∀ line ∈ outputLines output, ¬Blank line → Valid env line := by
      by_cases hsome : ∃ line ∈ outputLines output, Valid env line
      · have hviolating := (strictTermination_of_valid hsome).mp h
        have hsilent := (hmixed hsome).resolve_left fun ⟨l, hl, hv⟩ => hviolating l hl hv
        obtain ⟨l, hl, hv⟩ := hsome
        exact ⟨⟨l, hl, not_blank_of_opensObject hv.opensObject⟩, fun line hline hblank =>
          hvalid_iff line (hviolating line hline) (hsilent line hline) hblank⟩
      · obtain ⟨l, hl, hopens⟩ := (strictTermination_of_none hfallback hsome).mp h
        have hclosed := hnone (fun l hl hv => hsome ⟨l, hl, hv⟩) l hl
        rw [hopens] at hclosed
        cases hclosed
    refine ⟨hstrict, ?_⟩
    rintro ⟨line, hline, hblank, hvalid⟩ World writeArtifacts taskId now profile emission world rfl
    refine executeArtifact_blocks writeArtifacts taskId now profile world ?_
    exact Bool.eq_false_iff.mpr fun h => hvalid ((hstrict h).2 line hline hblank)

/-- An environment whose hash is right for the empty file. -/
def emptyFileEnv : ArtifactEnv where
  allowLegacyJsonlContent := false
  allowMarkerArtifactFallback := false
  sha256Of _ := "e3b0c44298fc1c149afbf4c8996fb92427ae41e4649b934ca495991b7852b855"
  numberText _ := "0"

/-- The line that writes an empty file. -/
def emptyFileLine : String :=
  r#"{"type":"file_write","path":"a.txt","content_b64":"","sha256":""# ++
    r#"e3b0c44298fc1c149afbf4c8996fb92427ae41e4649b934ca495991b7852b855"}"#

theorem Valid.type (h : Valid env line) :
    ((Json.parse (Text.trim line)).bind (Json.get? "type")).bind Json.str? = some "file_write" := by
  obtain ⟨fields, hparse, htype, -⟩ := h
  rw [hparse, Option.bind_some, htype]
  rfl

/-- An object without a type passes behind a valid line, and the file is written. -/
theorem typelessLine_written :
    let output := emptyFileLine ++ "\n{}"
    let emission : Emission := {
      agentId := "agent", content := output, promptTokens := 0, completionTokens := 0
      totalTokens := 0, model := "model", format := .artifact }
    parseJsonlArtifacts emptyFileEnv output = ⟨[⟨"a.txt", ""⟩], true, []⟩ ∧
      (executeArtifact emptyFileEnv
        (fun artifacts (written : List String) => (written ++ artifacts.map (·.filePath),
          artifacts.map fun a => { filePath := a.filePath, bytes := 0, ok := true }))
        "task" "" none (.ok emission) []).1 = ["a.txt"] ∧
      ¬ProtocolStrict emptyFileEnv output := by
  intro output emission
  have hparse : parseJsonlArtifacts emptyFileEnv output = ⟨[⟨"a.txt", ""⟩], true, []⟩ := by
    decide +kernel
  refine ⟨hparse, ?_, fun h => ?_⟩
  · rw [executeArtifact, show emission.content = output from rfl, hparse]
    rfl
  · have hline : "{}" ∈ outputLines output := by decide +kernel
    have hvalid := (h.strict (by rw [hparse])).2 _ hline (by unfold Blank; decide)
    exact absurd hvalid.type (by decide)

/-- A line of prose is recorded. -/
theorem protocolStrict_iff_of_prose : ProtocolStrict emptyFileEnv "Here is the file:" := by
  have hlines : ∀ line ∈ outputLines "Here is the file:", opensObject line = false := by
    decide
  refine (protocolStrict_iff emptyFileEnv _ rfl).mpr ⟨?_, fun _ => hlines⟩
  rintro ⟨line, hline, hv⟩
  exact absurd hv.opensObject (by rw [hlines line hline]; decide)

end KirkForge
