import KirkForge.Orchestrator.ArtifactMode
import Mathlib.Data.List.Forall2

/-!
# Termination of marker blocks

A line `### FILE:` opens a block, which the next such line, a line `### END` or the end of the
output closes. `parseArtifacts` only looks at how the last block ends: a block that the next file
cuts off counts as terminated (`terminationJudged_iff`).
-/

namespace KirkForge

variable {output line path : String} {lines : List String} {s : MarkerState}

/-! ### Blocks -/

/-- What stands behind the content of a block. -/
inductive BlockEnd
  | endMarker
  | nextFile
  | endOfOutput
  deriving DecidableEq, Repr

structure MarkerBlock where
  path : String
  content : List String
  ending : BlockEnd
  deriving DecidableEq, Repr

/-- The lines up to the next marker. -/
def blockContent : List String → List String
  | [] => []
  | line :: lines =>
    if (fileMarker line).isSome || isEndMarker line then [] else line :: blockContent lines

def blockEnd : List String → BlockEnd
  | [] => .endOfOutput
  | line :: lines =>
    if (fileMarker line).isSome then .nextFile
    else if isEndMarker line then .endMarker
    else blockEnd lines

/-- The block of a file whose content goes on with the given lines. -/
def markerBlock (path : String) (content lines : List String) : MarkerBlock :=
  ⟨path, content ++ blockContent lines, blockEnd lines⟩

/-- A block for each line that opens one. -/
def markerBlocks : List String → List MarkerBlock
  | [] => []
  | line :: lines =>
    ((fileMarker line).map fun path => markerBlock path [] lines).toList ++ markerBlocks lines

def outputBlocks (output : String) : List MarkerBlock := markerBlocks (Text.split '\n' output)

def MarkerBlock.artifact (b : MarkerBlock) : ParsedArtifact :=
  ⟨b.path, stripOuterFence (Text.join "\n" b.content)⟩

/-- The block has an end marker, and neither the next file nor the end of the output before it. -/
def MarkerBlock.Terminated (b : MarkerBlock) : Prop := b.ending = .endMarker

/-! ### The scanner -/

/-- What a block adds to the artifacts. -/
def MarkerBlock.emitted (b : MarkerBlock) : List ParsedArtifact :=
  if b.ending = .endMarker ∨ b.content ≠ [] then [b.artifact] else []

/-- The open block, and those that the lines open. -/
def MarkerState.blocks (s : MarkerState) (lines : List String) : List MarkerBlock :=
  (s.currentPath.map fun path => markerBlock path s.currentContent lines).toList ++
    markerBlocks lines

/-- The open block, if a line with a marker is next. -/
def MarkerState.closed (s : MarkerState) (ending : BlockEnd) : List MarkerBlock :=
  (s.currentPath.map fun path => ⟨path, s.currentContent, ending⟩).toList

theorem markerLine_file (hfile : fileMarker line = some path) :
    (markerLine s line).currentPath = some path ∧ (markerLine s line).currentContent = [] ∧
      (markerLine s line).artifacts =
        s.artifacts ++ (s.closed .nextFile).flatMap MarkerBlock.emitted := by
  obtain ⟨artifacts, warnings, currentPath, currentContent⟩ := s
  cases currentPath with
  | none => simp [markerLine, hfile, MarkerState.closed]
  | some current =>
    cases currentContent with
    | nil => simp [markerLine, hfile, MarkerState.closed, MarkerBlock.emitted]
    | cons l ls => simp [markerLine, hfile, MarkerState.closed, MarkerBlock.emitted,
        MarkerBlock.artifact, MarkerState.artifact]

theorem markerLine_end (hfile : fileMarker line = none) (hend : isEndMarker line = true) :
    (markerLine s line).currentPath = none ∧ (markerLine s line).artifacts =
      s.artifacts ++ (s.closed .endMarker).flatMap MarkerBlock.emitted := by
  obtain ⟨artifacts, warnings, currentPath, currentContent⟩ := s
  cases currentPath with
  | none => simp [markerLine, hfile, hend, MarkerState.closed]
  | some current => simp [markerLine, hfile, hend, MarkerState.closed, MarkerBlock.emitted,
      MarkerBlock.artifact, MarkerState.artifact]

theorem markerLine_content (hfile : fileMarker line = none) (hend : isEndMarker line = false) :
    (markerLine s line).currentPath = s.currentPath ∧
      (s.currentPath ≠ none → (markerLine s line).currentContent = s.currentContent ++ [line]) ∧
      (markerLine s line).artifacts = s.artifacts := by
  obtain ⟨artifacts, warnings, currentPath, currentContent⟩ := s
  cases currentPath <;> simp [markerLine, hfile, hend]

theorem ending_of_mem_closed {ending : BlockEnd} : ∀ b ∈ s.closed ending, b.ending = ending := by
  intro b hb
  obtain ⟨path, -, rfl⟩ := Option.map_eq_some_iff.mp (Option.mem_toList.mp hb)
  rfl

/-- A line closes the open block if it is a marker, and emits it; the other blocks stay as they
are. -/
theorem markerLine_blocks (s : MarkerState) (line : String) (lines : List String) :
    ∃ closed : List MarkerBlock,
      s.blocks (line :: lines) = closed ++ (markerLine s line).blocks lines ∧
      (markerLine s line).artifacts = s.artifacts ++ closed.flatMap MarkerBlock.emitted ∧
        ∀ b ∈ closed, b.ending ≠ .endOfOutput := by
  cases hfile : fileMarker line with
  | some path =>
    obtain ⟨hpath, hcontent, hartifacts⟩ := markerLine_file (s := s) hfile
    refine ⟨s.closed .nextFile, ?_, hartifacts,
      fun b hb => by rw [ending_of_mem_closed b hb]; nofun⟩
    simp [MarkerState.blocks, MarkerState.closed, markerBlocks, markerBlock, blockContent, blockEnd,
      hfile, hpath, hcontent]
  | none =>
    cases hend : isEndMarker line with
    | true =>
      obtain ⟨hpath, hartifacts⟩ := markerLine_end (s := s) hfile hend
      refine ⟨s.closed .endMarker, ?_, hartifacts,
        fun b hb => by rw [ending_of_mem_closed b hb]; nofun⟩
      simp [MarkerState.blocks, MarkerState.closed, markerBlocks, markerBlock, blockContent, blockEnd,
        hfile, hend, hpath]
    | false =>
      obtain ⟨hpath, hcontent, hartifacts⟩ := markerLine_content (s := s) hfile hend
      refine ⟨[], ?_, by simp [hartifacts], List.forall_mem_nil _⟩
      cases hopen : s.currentPath with
      | none => simp [MarkerState.blocks, markerBlocks, hfile, hpath, hopen]
      | some path =>
        have hcontent := hcontent (by rw [hopen]; nofun)
        simp [MarkerState.blocks, markerBlocks, markerBlock, blockContent, blockEnd, hfile, hend,
          hpath, hopen, hcontent]

/-- The loop emits the blocks in order; the last one is open if the output ends in it. -/
theorem foldl_markerLine (s : MarkerState) (lines : List String) :
    let s' := lines.foldl markerLine s
    s'.artifacts ++ (s'.closed .endOfOutput).flatMap MarkerBlock.emitted =
        s.artifacts ++ (s.blocks lines).flatMap MarkerBlock.emitted ∧
      (s'.currentPath = none ↔ ∀ b ∈ s.blocks lines, b.ending ≠ .endOfOutput) := by
  induction lines generalizing s with
  | nil =>
    cases hopen : s.currentPath <;>
      simp [MarkerState.blocks, MarkerState.closed, markerBlocks, markerBlock, blockContent, blockEnd,
        hopen]
  | cons line lines ih =>
    obtain ⟨closed, hblocks, hartifacts, hclosed⟩ := markerLine_blocks s line lines
    obtain ⟨hemitted, hpath⟩ := ih (markerLine s line)
    rw [List.foldl_cons]
    refine ⟨?_, ?_⟩
    · rw [hemitted, hartifacts, hblocks, List.flatMap_append, List.append_assoc]
    · rw [hpath, hblocks, List.forall_mem_append]
      exact (and_iff_right hclosed).symm

theorem parseArtifacts_spec (output : String) :
    (parseArtifacts output).artifacts = (outputBlocks output).flatMap MarkerBlock.emitted ∧
      ((parseArtifacts output).strictTermination = true ↔
        ∀ b ∈ outputBlocks output, b.ending ≠ .endOfOutput) := by
  obtain ⟨hemitted, hpath⟩ := foldl_markerLine {} (Text.split '\n' output)
  have hblocks : MarkerState.blocks {} (Text.split '\n' output) = outputBlocks output := rfl
  rw [hblocks] at hemitted hpath
  rw [← hpath, ← List.nil_append ((outputBlocks output).flatMap _)]
  refine ⟨Eq.trans ?_ hemitted, ?_⟩
  all_goals
    unfold parseArtifacts
    generalize (Text.split '\n' output).foldl markerLine {} = s
    obtain ⟨artifacts, warnings, currentPath, currentContent⟩ := s
    cases currentPath <;> cases currentContent <;>
      simp [MarkerState.closed, MarkerBlock.emitted, MarkerBlock.artifact, MarkerState.artifact]

/-! ### Termination -/

/-- What a result with the flag `strict` has of a block. -/
structure BlockJudged (strict : Bool) (b : MarkerBlock) (part : List ParsedArtifact) : Prop where
  of_block : part.Sublist [b.artifact]
  terminated : b.Terminated → part = [b.artifact]
  unterminated : ¬b.Terminated → strict = true → part = []

/-- Every block counts for the flag, and the artifacts are parts of the blocks, in order. -/
structure TerminationJudged (output : String) : Prop where
  strict_iff : (parseArtifacts output).strictTermination = true ↔
    ∀ b ∈ outputBlocks output, b.Terminated
  parts : ∃ parts : List (List ParsedArtifact), (parseArtifacts output).artifacts = parts.flatten ∧
    List.Forall₂ (BlockJudged (parseArtifacts output).strictTermination) (outputBlocks output) parts

/-- The flag is right exactly when no block is cut off by the next file, or the last block is open
anyway. -/
theorem terminationJudged_iff (output : String) :
    TerminationJudged output ↔
      (∀ b ∈ outputBlocks output, b.ending ≠ .nextFile) ∨
        ∃ b ∈ outputBlocks output, b.ending = .endOfOutput := by
  obtain ⟨hartifacts, hstrict⟩ := parseArtifacts_spec output
  constructor
  · rintro ⟨hjudged, -⟩
    by_cases hopen : ∃ b ∈ outputBlocks output, b.ending = .endOfOutput
    · exact .inr hopen
    · have hall := hjudged.mp (hstrict.mpr fun b hb h => hopen ⟨b, hb, h⟩)
      exact .inl fun b hb h => BlockEnd.noConfusion ((hall b hb).symm.trans h)
  · intro h
    have hjudged : (parseArtifacts output).strictTermination = true ↔
        ∀ b ∈ outputBlocks output, b.Terminated := by
      rw [hstrict]
      constructor
      · intro hclosed b hb
        have hnext := h.resolve_right (fun ⟨b, hb, h⟩ => hclosed b hb h) b hb
        cases hending : b.ending with
        | endMarker => exact hending
        | nextFile => exact absurd hending hnext
        | endOfOutput => exact absurd hending (hclosed b hb)
      · intro hall b hb h
        exact BlockEnd.noConfusion ((hall b hb).symm.trans h)
    refine ⟨hjudged, (outputBlocks output).map MarkerBlock.emitted, ?_, ?_⟩
    · rw [hartifacts, List.flatMap_def]
    · refine List.forall₂_map_right_iff.mpr (List.forall₂_same.mpr fun b hb => ⟨?_, ?_, ?_⟩)
      · rw [MarkerBlock.emitted]
        split
        · exact List.Sublist.refl _
        · exact List.nil_sublist _
      · intro hterminated
        exact if_pos (.inl hterminated)
      · intro hnot hstrict
        exact absurd (hjudged.mp hstrict b hb) hnot

/-- The first file is not terminated, and is returned with the flag set. -/
theorem abandoned_block_strict :
    let output := "### FILE: a\nx\n### FILE: b\ny\n### END"
    parseArtifacts output = ⟨[⟨"a", "x\n"⟩, ⟨"b", "y\n"⟩], true, []⟩ ∧
      ¬TerminationJudged output := by
  refine ⟨by decide, fun h => absurd h.strict_iff ?_⟩
  unfold MarkerBlock.Terminated
  decide

end KirkForge
