import KirkForge.Orchestrator.ParseDecomposition
import KirkForge.Orchestrator.WriteContainment
import KirkForge.Theory.OrderedMap

/-!
# Hard prompts

The writer behind a hard prompt (`persistCodeBlocks` in `modes.ts`): the fenced code blocks of a
model's answer, the file that each is for, and the checks it shares with `writeArtifacts`. As there,
the disk has no links, and what comes from outside is an input. Of a file that is written over the
two record the hash of its text and of its bytes, which differ where the bytes are not UTF-8
(`sameBeforeHash_iff`).
-/

namespace KirkForge

open Text (indexOf)

/-- The part of a profile that is read for a hard prompt. -/
structure EmissionSchema extends TaskProfile where
  defaultFile : String

def EmissionSchema.like (profile : EmissionSchema) : TaskProfileLike where
  language := some profile.language.name
  allowedExtensions := some profile.allowedExtensions
  forbiddenExtensions := some profile.forbiddenExtensions
  writePolicy := profile.writePolicy

def extensionForLanguage (language : Option String) : String :=
  match Text.toLowerCase (language.getD "") with
  | "python" => ".py"
  | "shell" | "bash" | "sh" => ".sh"
  | "cpp" | "c++" => ".cpp"
  | "c" => ".c"
  | "rust" => ".rs"
  | "go" => ".go"
  | "sql" => ".sql"
  | "javascript" | "js" => ".js"
  | "typescript" | "ts" => ".ts"
  | _ => ".txt"

/-! ### Code blocks -/

/-- A match of ```` ```info\s*\n([\s\S]*?)``` ```` at the start: the group, and what follows. -/
def blockMatch (info : Char → Bool) (cs : List Char) : Option (List Char × List Char) :=
  if fence <+: cs then
    (afterBlankLines ((cs.drop 3).dropWhile info)).bind fun body =>
      (indexOf fence body).map fun n => (body.take n, body.drop (n + 3))
  else none

/-- The groups of all matches; the first characters belong to the match before. -/
def blockMatches (info : Char → Bool) : Nat → List Char → List (List Char)
  | _, [] => []
  | skip + 1, _ :: cs => blockMatches info skip cs
  | 0, c :: cs =>
    match blockMatch info (c :: cs) with
    | some (group, rest) => group :: blockMatches info (cs.length - rest.length) cs
    | none => blockMatches info 0 cs

/-- The code of the blocks, trimmed. -/
def codeBlocks (content : String) : List String :=
  let blocks := blockMatches isFenceInfo 0 content.toList
  let blocks := if blocks = [] then blockMatches (fun _ => false) 0 content.toList else blocks
  blocks.map fun group => Text.trim (String.ofList group)

example : codeBlocks "```ts\na\n```\nand ```\n\nb```" = ["a", "b"] := by decide

/-- The blocks to write, with their places: all, or the largest one for a pinned file. -/
def blockIndices (targetFile : Option String) (blocks : List String) : List (String × Nat) :=
  let indices := blocks.zipIdx
  if (targetFile.getD "" ≠ "") ∧ blocks.length > 1 then
    let sized := (indices.filter fun block => Text.units block.1 > 0).mergeSort
      fun a b => Text.units b.1 ≤ Text.units a.1
    sized.take 1
  else indices

/-- ``baseName.replace(/\.(\w+)$/, `-${i + 1}.$1`)`` -/
def numberedName (baseName : String) (i : Nat) : String :=
  let extension := baseName.toList.reverse.takeWhile Pattern.isWordChar
  match baseName.toList.reverse.dropWhile Pattern.isWordChar with
  | '.' :: front =>
    if extension = [] then baseName
    else String.ofList front.reverse ++ "-" ++ toString (i + 1) ++ "." ++
      String.ofList extension.reverse
  | _ => baseName

def blockName (targetFile : Option String) (baseName : String) (blocks i : Nat) : String :=
  match targetFile.filter (· ≠ "") with
  | some target => target
  | none => if blocks = 1 then baseName else numberedName baseName i

/-! ### The writer -/

/-- The local variables of `persistCodeBlocks`, and the disk. -/
structure PersistState where
  disk : ArtifactDisk
  written : List String := []
  blocked : List BlockedPath := []
  beforeHashSnapshots : List (String × Option String × Bool) := []

def PersistState.block (s : PersistState) (path reason : String) : PersistState :=
  { s with blocked := s.blocked ++ [⟨path, reason⟩] }

/-- `mkdirSync` returns. -/
def madeDirs (io : WriteIo) (disk : ArtifactDisk) (fp : AbsPath) : Bool :=
  (disk.mkdirs (dirname fp)).isSome && io.stoppedAt.all fun n => (dirname fp).length ≤ n

section Writer

variable (sha256 : ByteArray → String) (cwd : AbsPath) (profile : Option EmissionSchema)

/-- `sha256Of(readFileSync(fp, "utf-8"))` and the bytes of that text. -/
def textHash (bytes : ByteArray) : String × Nat :=
  let text := Encoding.decodeUtf8 (bytes.toList.map UInt8.toNat)
  (sha256 text.toByteArray, byteLength text)

/-- The hash before the write, and whether a file was read for it. -/
def snapshot (io : WriteIo) (disk : ArtifactDisk) (fp : AbsPath) : Option String × Bool :=
  match disk.file? fp.segments with
  | some file => if io.readable then (some (textHash sha256 file.2).1, true) else (none, false)
  | none => (none, false)

/-- The body of the loop over the blocks. -/
def persistBlock (forceOverwrite : Bool) (io : WriteIo) (s : PersistState) (name code : String) :
    PersistState :=
  let fp := cwd.resolve name
  if !isInsideCwd fp cwd then s.block name ("path escapes sandbox: " ++ name)
  else
    match disallowedArtifact ⟨name, code ++ "\n"⟩ (profile.map EmissionSchema.like) with
    | some rejection => s.block name rejection
    | none =>
      if byteLength (code ++ "\n") > MAX_ARTIFACT_BYTES then
        s.block name ("artifact exceeds " ++ toString MAX_ARTIFACT_BYTES ++ " byte limit: " ++ name)
      else if isBinaryLikeContent code then
        s.block name ("binary-like content detected: " ++ name)
      else
        let existed := (s.disk.node fp.segments).isSome
        if existed ∧ !forceOverwrite ∧ !allowOverwrite (profile.map EmissionSchema.like) then
          s.block name ("overwrite denied (allowOverwrite not enabled in writePolicy): " ++ name)
        else if deniedPath (profile.map EmissionSchema.like) (cwd.relative fp) then
          s.block name ("path denied by writePolicy: " ++ name)
        else
          let snapshots :=
            if madeDirs io s.disk fp then
              OrderedMap.insert name (snapshot sha256 io s.disk fp) s.beforeHashSnapshots
            else s.beforeHashSnapshots
          let (disk', ok) := tryWrite io s.disk fp (code ++ "\n")
          let s := { s with disk := disk', beforeHashSnapshots := snapshots }
          if ok then { s with written := s.written ++ [name] }
          else s.block name ("write error: " ++ name)

/-- The loop over the blocks; the `i`-th block has the `i`-th input from outside. -/
def persistBlocks (forceOverwrite : Bool) (io : Nat → WriteIo) (name : Nat → String)
    (disk : ArtifactDisk) (blocks : List (String × Nat)) : PersistState :=
  blocks.foldl (fun s block => persistBlock sha256 cwd profile forceOverwrite (io block.2) s
    (name block.2) block.1) { disk }

structure PersistResult where
  written : List String
  blocked : List BlockedPath
  hashes : List String
  fileBytes : List Nat
  beforeHashes : List (Option String)
  existed : List Bool

/-- The last loop: what is on disk for the written files. The `i`-th of them can be read again or
not. -/
def persistResult (readBack : Nat → Bool) (s : PersistState) : PersistResult :=
  let files := s.written.mapIdx fun i name =>
    if readBack i then
      ((s.disk.file? (cwd.resolve name).segments).map fun file => textHash sha256 file.2).getD ("", 0)
    else ("", 0)
  let snapshots := s.written.map fun name =>
    (OrderedMap.lookup name s.beforeHashSnapshots).getD (none, false)
  { written := s.written
    blocked := s.blocked
    hashes := files.map Prod.fst
    fileBytes := files.map Prod.snd
    beforeHashes := snapshots.map Prod.fst
    existed := snapshots.map Prod.snd }

def persistCodeBlocks (io : Nat → WriteIo) (readBack : Nat → Bool) (content : String)
    (targetFile : Option String) (forceOverwrite : Bool) (disk : ArtifactDisk) :
    ArtifactDisk × PersistResult :=
  let blocks := codeBlocks content
  let ext := extensionForLanguage (profile.map (·.language.name))
  let baseName := targetFile.getD ((profile.map (·.defaultFile)).getD ("output" ++ ext))
  let s := persistBlocks sha256 cwd profile forceOverwrite io
    (blockName targetFile baseName blocks.length) disk (blockIndices targetFile blocks)
  (s.disk, persistResult sha256 cwd readBack s)

end Writer

/-! ### What is written -/

section Written

variable {sha256 : ByteArray → String} {cwd : AbsPath} {profile : Option EmissionSchema}
  {forceOverwrite : Bool} {name : String}

/-- A name that is written has passed the checks of `writeArtifacts`, for some content. -/
def PassesAs (cwd : AbsPath) (profile : Option EmissionSchema) (name : String) : Prop :=
  isInsideCwd (cwd.resolve name) cwd = true ∧
    (∃ content, disallowedArtifact ⟨name, content⟩ (profile.map EmissionSchema.like) = none) ∧
    deniedPath (profile.map EmissionSchema.like) (cwd.relative (cwd.resolve name)) = false

/-- A write that goes through has made its directories. -/
theorem madeDirs_of_tryWrite {io : WriteIo} {disk disk' : ArtifactDisk} {fp : AbsPath}
    {content : String} (h : tryWrite io disk fp content = (disk', true)) :
    madeDirs io disk fp = true := by
  have hstopped : io.stoppedAt = none := by
    unfold tryWrite at h
    split at h
    · cases h
    · assumption
  obtain ⟨disk₁, hmkdirs, -⟩ := Option.bind_eq_some_iff.mp (tryWrite_eq_true h)
  rw [madeDirs, hstopped, hmkdirs]
  rfl

/-- A block is written after passing the checks, with a snapshot. -/
structure BlockWritten (sha256 : ByteArray → String) (cwd : AbsPath)
    (profile : Option EmissionSchema) (forceOverwrite : Bool) (io : WriteIo) (s : PersistState)
    (name code : String) (s' : PersistState) : Prop where
  written : s'.written = s.written ++ [name]
  passes : PassesAs cwd profile name
  new : forceOverwrite = false → allowOverwrite (profile.map EmissionSchema.like) = false →
    s.disk.node (cwd.resolve name).segments = none
  snapshots : s'.beforeHashSnapshots = OrderedMap.insert name
    (snapshot sha256 io s.disk (cwd.resolve name)) s.beforeHashSnapshots
  blocked : s'.blocked = s.blocked
  write : tryWrite io s.disk (cwd.resolve name) (code ++ "\n") = (s'.disk, true)

/-- A block is not written: it is refused, or it passes the checks and the write fails. -/
structure BlockRefused (cwd : AbsPath) (profile : Option EmissionSchema) (io : WriteIo)
    (s : PersistState) (name code : String) (s' : PersistState) : Prop where
  written : s'.written = s.written
  blocked : ∃ reason, s'.blocked = s.blocked ++ [⟨name, reason⟩] ∧ (s'.disk = s.disk ∨
    reason = "write error: " ++ name ∧ PassesAs cwd profile name ∧
      tryWrite io s.disk (cwd.resolve name) (code ++ "\n") = (s'.disk, false))

/-- What one block can do: be refused, fail to be written, or be written. -/
theorem persistBlock_spec {io : WriteIo} {s s' : PersistState} {code : String}
    (h : persistBlock sha256 cwd profile forceOverwrite io s name code = s') :
    BlockRefused cwd profile io s name code s' ∨
      BlockWritten sha256 cwd profile forceOverwrite io s name code s' := by
  have hblocked (reason : String) (hs : s.block name reason = s') :
      BlockRefused cwd profile io s name code s' ∨
        BlockWritten sha256 cwd profile forceOverwrite io s name code s' :=
    .inl ⟨hs ▸ rfl, reason, hs ▸ rfl, .inl (hs ▸ rfl)⟩
  simp only [persistBlock] at h
  split at h
  · exact hblocked _ h
  next hinside =>
  split at h
  · exact hblocked _ h
  next hallowed =>
  split at h
  · exact hblocked _ h
  split at h
  · exact hblocked _ h
  split at h
  · exact hblocked _ h
  next hoverwrite =>
  split at h
  · exact hblocked _ h
  next hdenied =>
  have hpasses : PassesAs cwd profile name :=
    ⟨by simpa using hinside, ⟨_, hallowed⟩, Bool.eq_false_iff.mpr hdenied⟩
  cases hwrite : tryWrite io s.disk (cwd.resolve name) (code ++ "\n") with
  | mk disk' ok =>
    rw [hwrite] at h
    cases ok with
    | false =>
      obtain rfl : s'.disk = disk' := h ▸ rfl
      exact .inl ⟨h ▸ rfl, _, h ▸ rfl, .inr ⟨rfl, hpasses, hwrite⟩⟩
    | true =>
      rw [madeDirs_of_tryWrite hwrite] at h
      refine .inr ⟨h ▸ rfl, hpasses, fun hforce hno => ?_, h ▸ rfl, h ▸ rfl, ?_⟩
      · simpa [hforce, hno] using hoverwrite
      · rw [hwrite, ← h]
        rfl

/-- A block is written after passing the checks, with a snapshot, or nothing is added to what is
written. -/
theorem persistBlock_cases {io : WriteIo} {s s' : PersistState} {code : String}
    (h : persistBlock sha256 cwd profile forceOverwrite io s name code = s') :
    s'.written = s.written ∨ s'.written = s.written ++ [name] ∧ PassesAs cwd profile name ∧
      s'.beforeHashSnapshots = OrderedMap.insert name
        (snapshot sha256 io s.disk (cwd.resolve name)) s.beforeHashSnapshots := by
  obtain hrefused | hwritten := persistBlock_spec h
  · exact .inl hrefused.written
  · exact .inr ⟨hwritten.written, hwritten.passes, hwritten.snapshots⟩

theorem written_persistBlock {io : WriteIo} {s : PersistState} {code : String}
    (h : ∀ n ∈ s.written, PassesAs cwd profile n) :
    ∀ n ∈ (persistBlock sha256 cwd profile forceOverwrite io s name code).written,
      PassesAs cwd profile n := by
  obtain hsame | ⟨hwritten, hpasses, -⟩ :=
    persistBlock_cases (Eq.refl (persistBlock sha256 cwd profile forceOverwrite io s name code))
  · rw [hsame]
    exact h
  · rw [hwritten]
    exact List.forall_mem_append.mpr ⟨h, List.forall_mem_singleton.mpr hpasses⟩

theorem written_persistBlocks {io : Nat → WriteIo} {names : Nat → String} {disk : ArtifactDisk}
    {blocks : List (String × Nat)} :
    ∀ n ∈ (persistBlocks sha256 cwd profile forceOverwrite io names disk blocks).written,
      PassesAs cwd profile n := by
  suffices hrun : ∀ s : PersistState, (∀ n ∈ s.written, PassesAs cwd profile n) →
      ∀ n ∈ (blocks.foldl (fun s block => persistBlock sha256 cwd profile forceOverwrite
        (io block.2) s (names block.2) block.1) s).written, PassesAs cwd profile n from
    hrun _ (List.forall_mem_nil _)
  induction blocks with
  | nil => exact fun s h => h
  | cons block blocks ih => exact fun s h => ih _ (written_persistBlock h)

theorem written_persistCodeBlocks {io : Nat → WriteIo} {readBack : Nat → Bool} {content : String}
    {targetFile : Option String} {disk : ArtifactDisk}
    (h : name ∈ (persistCodeBlocks sha256 cwd profile io readBack content targetFile forceOverwrite
      disk).2.written) : PassesAs cwd profile name :=
  written_persistBlocks name h

/-! ### The files of a hard prompt -/

/-- The loop over the blocks from a state. -/
def persistRun (sha256 : ByteArray → String) (cwd : AbsPath) (profile : Option EmissionSchema)
    (forceOverwrite : Bool) (io : Nat → WriteIo) (names : Nat → String) (s : PersistState)
    (blocks : List (String × Nat)) : PersistState :=
  blocks.foldl (fun s block => persistBlock sha256 cwd profile forceOverwrite (io block.2) s
    (names block.2) block.1) s

/-- Each write finds the name of its temporary file unused. -/
def FreshBlocks (sha256 : ByteArray → String) (cwd : AbsPath) (profile : Option EmissionSchema)
    (forceOverwrite : Bool) (io : Nat → WriteIo) (names : Nat → String) :
    PersistState → List (String × Nat) → Prop
  | _, [] => True
  | s, block :: blocks =>
    let s' := persistBlock sha256 cwd profile forceOverwrite (io block.2) s (names block.2) block.1
    let fp := cwd.resolve (names block.2)
    (s'.disk ≠ s.disk → s.disk.node (dirname fp ++ [tmpName (io block.2) fp]) = none) ∧
      FreshBlocks sha256 cwd profile forceOverwrite io names s' blocks

/-- A written name is the file at a path, with a line end after one of the blocks, and a file that
was there before was replaced with leave. -/
structure BlockAt (cwd : AbsPath) (profile : Option EmissionSchema) (forceOverwrite : Bool)
    (blocks : List (String × Nat)) (disk : ArtifactDisk) (s : PersistState) (p : List (List Char))
    (name : String) : Prop where
  written : name ∈ s.written
  passes : PassesAs cwd profile name
  path : (cwd.resolve name).segments = p
  contents : ∃ block ∈ blocks, ∃ id, s.disk.file? p = some (id, (block.1 ++ "\n").toByteArray)
  new : forceOverwrite = false → allowOverwrite (profile.map EmissionSchema.like) = false →
    disk.file? p = none

/-- A new temporary file holds one of the blocks, with a line end: the write of a name, which is
blocked, failed behind it. -/
structure LeftAt (cwd : AbsPath) (profile : Option EmissionSchema) (blocks : List (String × Nat))
    (disk : ArtifactDisk) (s : PersistState) (p : List (List Char)) (name : String) : Prop where
  blocked : ⟨name, "write error: " ++ name⟩ ∈ s.blocked
  passes : PassesAs cwd profile name
  path : ∃ io, p = dirname (cwd.resolve name) ++ [tmpName io (cwd.resolve name)]
  contents : ∃ block ∈ blocks, ∃ id, s.disk.file? p = some (id, (block.1 ++ "\n").toByteArray)
  new : disk.file? p = none

theorem file?_persistBlock {io : WriteIo} {s s' : PersistState} {block : String × Nat}
    (h : persistBlock sha256 cwd profile forceOverwrite io s name block.1 = s')
    (hfresh : s'.disk ≠ s.disk →
      s.disk.node (dirname (cwd.resolve name) ++ [tmpName io (cwd.resolve name)]) = none)
    (p : List (List Char)) : s'.disk.file? p = s.disk.file? p ∨
      BlockAt cwd profile forceOverwrite [block] s.disk s' p name ∨
      LeftAt cwd profile [block] s.disk s' p name := by
  by_cases hdisk : s'.disk = s.disk
  · exact .inl (by rw [hdisk])
  have hunused := hfresh hdisk
  have hcontents {id : Nat} (hfile : s'.disk.file? p = some (id, (block.1 ++ "\n").toByteArray)) :
      ∃ b ∈ [block], ∃ id, s'.disk.file? p = some (id, (b.1 ++ "\n").toByteArray) :=
    ⟨block, List.mem_singleton_self _, id, hfile⟩
  obtain hrefused | hwritten := persistBlock_spec h
  · obtain ⟨reason, hblocked, hsame | ⟨rfl, hpasses, hwrite⟩⟩ := hrefused.blocked
    · exact absurd hsame hdisk
    · have hpath := dirname_append_lastName (isInsideCwd_iff.mp hpasses.1)
      obtain ⟨-, hfile⟩ | ⟨-, id, hfile⟩ := tryWrite_eq_false hpath hwrite
      · exact .inl (hfile p)
      · by_cases hp : p = dirname (cwd.resolve name) ++ [tmpName io (cwd.resolve name)]
        · refine .inr (.inr ⟨?_, hpasses, ⟨io, hp⟩, hcontents ((hfile p).trans (if_pos hp)), ?_⟩)
          · rw [hblocked]
            exact List.mem_append_right _ (List.mem_singleton_self _)
          · rw [hp]
            exact FileSystem.file?_of_node_eq_none hunused
        · exact .inl ((hfile p).trans (if_neg hp))
  · obtain ⟨-, hfile⟩ := FileSystem.file?_atomicWrite hunused (tryWrite_eq_true hwritten.write)
    rw [dirname_append_lastName (isInsideCwd_iff.mp hwritten.passes.1)] at hfile
    by_cases hp : p = (cwd.resolve name).segments
    · refine .inr (.inl ⟨?_, hwritten.passes, hp.symm, hcontents ((hfile p).trans (if_pos hp)), ?_⟩)
      · rw [hwritten.written]
        exact List.mem_append_right _ (List.mem_singleton_self _)
      · intro hforce hno
        rw [hp]
        exact FileSystem.file?_of_node_eq_none (hwritten.new hforce hno)
    · exact .inl ((hfile p).trans (if_neg hp))

/-- What is written and what is blocked stays so. -/
theorem subset_persistBlock {io : WriteIo} {s s' : PersistState} {code : String}
    (h : persistBlock sha256 cwd profile forceOverwrite io s name code = s') :
    s.written ⊆ s'.written ∧ s.blocked ⊆ s'.blocked := by
  obtain hrefused | hwritten := persistBlock_spec h
  · obtain ⟨reason, hblocked, -⟩ := hrefused.blocked
    rw [hrefused.written, hblocked]
    exact ⟨List.Subset.refl _, List.subset_append_left ..⟩
  · rw [hwritten.written, hwritten.blocked]
    exact ⟨List.subset_append_left .., List.Subset.refl _⟩

theorem subset_persistRun {io : Nat → WriteIo} {names : Nat → String}
    (blocks : List (String × Nat)) (s : PersistState) :
    s.written ⊆ (persistRun sha256 cwd profile forceOverwrite io names s blocks).written ∧
      s.blocked ⊆ (persistRun sha256 cwd profile forceOverwrite io names s blocks).blocked := by
  induction blocks generalizing s with
  | nil => exact ⟨List.Subset.refl _, List.Subset.refl _⟩
  | cons block blocks ih =>
    obtain ⟨hwritten, hblocked⟩ := subset_persistBlock
      (Eq.refl
        (persistBlock sha256 cwd profile forceOverwrite (io block.2) s (names block.2) block.1))
    exact ⟨List.Subset.trans hwritten (ih _).1, List.Subset.trans hblocked (ih _).2⟩

/-- A path is as it was, or it is a block that has been written, or the temporary file of one whose
write failed. -/
theorem file?_persistRun {io : Nat → WriteIo} {names : Nat → String} {s : PersistState}
    {blocks : List (String × Nat)}
    (hfresh : FreshBlocks sha256 cwd profile forceOverwrite io names s blocks)
    (p : List (List Char)) :
    let s' := persistRun sha256 cwd profile forceOverwrite io names s blocks
    s'.disk.file? p = s.disk.file? p ∨
      ∃ name, BlockAt cwd profile forceOverwrite blocks s.disk s' p name ∨
        LeftAt cwd profile blocks s.disk s' p name := by
  induction blocks generalizing s with
  | nil => exact .inl rfl
  | cons block blocks ih =>
    intro s'
    obtain ⟨hstep, hrest⟩ := hfresh
    generalize hs₁ : persistBlock sha256 cwd profile forceOverwrite (io block.2) s
      (names block.2) block.1 = s₁ at hstep hrest
    have hrun : s' = persistRun sha256 cwd profile forceOverwrite io names s₁ blocks := by
      rw [← hs₁]
      rfl
    have hfirst := file?_persistBlock hs₁ hstep p
    obtain ⟨hwritten, hblocked⟩ : s₁.written ⊆ s'.written ∧ s₁.blocked ⊆ s'.blocked :=
      hrun ▸ subset_persistRun blocks s₁
    -- a file that is new to the rest of the blocks is new to all of them
    have hnew (hnone : s₁.disk.file? p = none) : s.disk.file? p = none := by
      obtain hsame | h | h := hfirst
      · exact hsame.symm.trans hnone
      · obtain ⟨_, _, id, hfile⟩ := h.contents
        rw [hnone] at hfile
        cases hfile
      · exact h.new
    obtain hsame | ⟨name, h | h⟩ : s'.disk.file? p = s₁.disk.file? p ∨ _ := hrun ▸ ih hrest
    · have hcontents (hfirst : ∃ b ∈ [block], ∃ id,
          s₁.disk.file? p = some (id, (b.1 ++ "\n").toByteArray)) :
          ∃ b ∈ block :: blocks, ∃ id,
            s'.disk.file? p = some (id, (b.1 ++ "\n").toByteArray) := by
        obtain ⟨b, hb, id, hfile⟩ := hfirst
        obtain rfl := List.mem_singleton.mp hb
        exact ⟨b, List.mem_cons_self, id, hsame.trans hfile⟩
      obtain hfirst | h | h := hfirst
      · exact .inl (hsame.trans hfirst)
      · exact .inr ⟨_, .inl ⟨hwritten h.written, h.passes, h.path, hcontents h.contents, h.new⟩⟩
      · exact .inr ⟨_, .inr ⟨hblocked h.blocked, h.passes, h.path, hcontents h.contents, h.new⟩⟩
    · obtain ⟨b, hb, hcontents⟩ := h.contents
      exact .inr ⟨name, .inl ⟨h.written, h.passes, h.path,
        ⟨b, List.mem_cons_of_mem _ hb, hcontents⟩, fun hforce hno => hnew (h.new hforce hno)⟩⟩
    · obtain ⟨b, hb, hcontents⟩ := h.contents
      exact .inr ⟨name, .inr ⟨h.blocked, h.passes, h.path,
        ⟨b, List.mem_cons_of_mem _ hb, hcontents⟩, hnew h.new⟩⟩

end Written

/-! ### The hash of what is overwritten -/

/-- A write of a hard prompt and one of `writeArtifacts`. -/
structure OverwriteRuns where
  sha256 : ByteArray → String
  cwd : AbsPath
  profile : Option EmissionSchema
  forceOverwrite : Bool
  io : WriteIo
  state : PersistState
  name : String
  code : String
  artifactCwd : AbsPath
  artifactProfile : Option TaskProfileLike
  artifactIo : WriteIo
  disk : ArtifactDisk
  art : ParsedArtifact

namespace OverwriteRuns

variable {r : OverwriteRuns} {bytes : ByteArray}

def prompt (r : OverwriteRuns) : PersistState :=
  persistBlock r.sha256 r.cwd r.profile r.forceOverwrite r.io r.state r.name r.code

def artifact (r : OverwriteRuns) : WriteResult :=
  (writeArtifact r.sha256 r.artifactCwd r.artifactProfile r.artifactIo r.disk r.art).2

/-- Both write over a file with these bytes, which can be read for both or for neither. -/
structure BothOverwrite (r : OverwriteRuns) (bytes : ByteArray) : Prop where
  old : ∃ id, r.state.disk.file? (r.cwd.resolve r.name).segments = some (id, bytes)
  written : r.prompt.written = r.state.written ++ [r.name]
  artifactOld : ∃ id, r.disk.file? (r.artifactCwd.resolve r.art.filePath).segments =
    some (id, bytes)
  ok : r.artifact.ok = true
  readable : r.io.readable = r.artifactIo.readable

/-- The two writers record the same `beforeHash`. -/
def SameBeforeHash (r : OverwriteRuns) : Prop :=
  (OrderedMap.lookup r.name r.prompt.beforeHashSnapshots).map Prod.fst = some r.artifact.beforeHash

/-- What the hash of a hard prompt is made of. -/
def reencoded (bytes : ByteArray) : ByteArray :=
  (Encoding.decodeUtf8 (bytes.toList.map UInt8.toNat)).toByteArray

/-- A block that is written has left its snapshot. -/
theorem lookup_prompt (h : r.prompt.written = r.state.written ++ [r.name]) :
    OrderedMap.lookup r.name r.prompt.beforeHashSnapshots =
      some (snapshot r.sha256 r.io r.state.disk (r.cwd.resolve r.name)) := by
  obtain hwritten | ⟨-, -, hsnapshots⟩ := persistBlock_cases (Eq.refl r.prompt)
  · rw [hwritten] at h
    have hlength := congrArg List.length h
    simp at hlength
  · rw [hsnapshots, OrderedMap.lookup_insert, if_pos rfl]

/-- An artifact that is written over a file has read it. -/
theorem beforeHash_artifact {id : Nat} (hok : r.artifact.ok = true)
    (hold : r.disk.file? (r.artifactCwd.resolve r.art.filePath).segments = some (id, bytes)) :
    r.artifact.beforeHash = some (r.sha256 bytes) ∧ r.artifactIo.readable = true := by
  obtain ⟨disk', reason, heq, -⟩ | ⟨disk', result, heq, h⟩ := writeArtifact_cases r.sha256
    r.artifactCwd r.artifactProfile r.artifactIo r.disk r.art
  · rw [artifact, heq] at hok
    cases hok
  · rw [artifact, heq]
    refine ⟨?_, h.readable ?_⟩
    · rw [h.beforeHash, hold]
      rfl
    · rw [FileSystem.file?_eq_some.mp hold]
      rfl

/-- The two hashes are those of the text that the bytes are read as, and of the bytes. -/
theorem sameBeforeHash_iff_hash_eq (h : BothOverwrite r bytes) :
    SameBeforeHash r ↔ r.sha256 (reencoded bytes) = r.sha256 bytes := by
  obtain ⟨id, hold⟩ := h.old
  obtain ⟨id', hartifact⟩ := h.artifactOld
  obtain ⟨hbefore, hreadable⟩ := beforeHash_artifact h.ok hartifact
  have hsnapshot : snapshot r.sha256 r.io r.state.disk (r.cwd.resolve r.name) =
      (some (r.sha256 (reencoded bytes)), true) := by
    rw [snapshot, hold]
    exact if_pos (h.readable.trans hreadable)
  rw [SameBeforeHash, lookup_prompt h.written, hsnapshot, hbefore]
  simp

/-- The two writers agree on UTF-8, and otherwise only where SHA-256 has a collision. -/
theorem sameBeforeHash_iff (h : BothOverwrite r bytes) :
    SameBeforeHash r ↔ bytes.IsValidUTF8 ∨
      reencoded bytes ≠ bytes ∧ r.sha256 (reencoded bytes) = r.sha256 bytes := by
  rw [sameBeforeHash_iff_hash_eq h, ← Encoding.toByteArray_decodeUtf8_iff, ← reencoded]
  constructor
  · intro heq
    by_cases hbytes : reencoded bytes = bytes
    · exact .inl hbytes
    · exact .inr ⟨hbytes, heq⟩
  · rintro (hbytes | ⟨-, heq⟩)
    · rw [hbytes]
    · exact heq

/-- The disk with one file, `/w/a.ts`. -/
def sampleDisk (bytes : ByteArray) : ArtifactDisk :=
  (FileSystem.onlyDirs [['w']]).put [['w']] "a.ts".toList 0 bytes (by decide) (by decide)

/-- An answer and an artifact that are written over this file. -/
def sampleRuns (sha256 : ByteArray → String) (bytes : ByteArray) : OverwriteRuns where
  sha256 := sha256
  cwd := ⟨[['w']], by decide⟩
  profile := none
  forceOverwrite := true
  io := ⟨0, "00000000", "", true, none⟩
  state := { disk := sampleDisk bytes }
  name := "a.ts"
  code := "x"
  artifactCwd := ⟨[['w']], by decide⟩
  artifactProfile := some { writePolicy := some { allowOverwrite := some true } }
  artifactIo := ⟨0, "00000000", "", true, none⟩
  disk := sampleDisk bytes
  art := ⟨"a.ts", "x\n"⟩

theorem node_sampleDisk (bytes : ByteArray) (q : List (List Char)) : (sampleDisk bytes).node q =
    if q = [['w'], "a.ts".toList] then some (.file 0 bytes)
    else if q <+: [['w']] then some .dir else none := rfl

theorem old_sampleDisk (bytes : ByteArray) :
    (sampleDisk bytes).file? [['w'], "a.ts".toList] = some (0, bytes) :=
  FileSystem.file?_eq_some.mpr ((node_sampleDisk bytes _).trans (if_pos rfl))

/-- The file can be written over. -/
theorem tryWrite_sampleDisk (bytes : ByteArray) {fp : AbsPath}
    (hfp : fp.segments = [['w'], "a.ts".toList]) (content : String) :
    ∃ disk', tryWrite ⟨0, "00000000", "", true, none⟩ (sampleDisk bytes) fp content =
      (disk', true) := by
  have hdir : dirname fp = [['w']] := by rw [dirname, hfp]; rfl
  have hlast : lastName fp = "a.ts".toList := by rw [lastName, hfp]; rfl
  have htmp : tmpName ⟨0, "00000000", "", true, none⟩ fp = "a.ts.tmp.0.00000000".toList := by
    rw [tmpName, hlast]
    decide
  obtain ⟨disk', hwrite⟩ : ∃ disk', (sampleDisk bytes).atomicWrite [['w']] "a.ts".toList
      "a.ts.tmp.0.00000000".toList content.toByteArray = some disk' := by
    refine FileSystem.exists_atomicWrite ?_ ?_ ?_
    · intro q hq
      have hne : q ≠ [['w'], "a.ts".toList] := by
        rintro rfl
        exact absurd hq (by decide)
      rw [FileSystem.file?, node_sampleDisk, if_neg hne, if_pos hq]
    · rw [node_sampleDisk, if_neg (by decide), if_neg (by decide)]
    · rw [FileSystem.isDir, List.singleton_append, node_sampleDisk, if_pos rfl]
  refine ⟨disk', tryWrite_of_atomicWrite rfl ?_⟩
  rw [hdir, hlast, htmp]
  exact hwrite

theorem bothOverwrite_sample (sha256 : ByteArray → String) (bytes : ByteArray) :
    BothOverwrite (sampleRuns sha256 bytes) bytes := by
  have hfp : (AbsPath.resolve ⟨[['w']], by decide⟩ "a.ts").segments = [['w'], "a.ts".toList] := by
    decide
  have hold := old_sampleDisk bytes
  rw [← hfp] at hold
  obtain ⟨disk', hwrite⟩ := tryWrite_sampleDisk bytes hfp "x\n"
  have hnode := FileSystem.file?_eq_some.mp hold
  have hinside : isInsideCwd (AbsPath.resolve ⟨[['w']], by decide⟩ "a.ts") ⟨[['w']], by decide⟩ =
    true := by decide
  have hsize : ¬byteLength "x\n" > MAX_ARTIFACT_BYTES := by decide
  have hline : "x" ++ "\n" = "x\n" := by decide
  refine ⟨⟨0, hold⟩, ?_, ⟨0, hold⟩, ?_, rfl⟩
  · have hallowed : disallowedArtifact ⟨"a.ts", "x\n"⟩ none = none := by decide
    have htext : isBinaryLikeContent "x" = false := by decide
    simp [prompt, persistBlock, sampleRuns, hinside, hline, hallowed, hsize, htext, hwrite,
      deniedPath]
  · have hallowed : disallowedArtifact ⟨"a.ts", "x\n"⟩
      (some { writePolicy := some { allowOverwrite := some true } }) = none := by decide
    have htext : isBinaryLikeContent "x\n" = false := by decide
    simp [artifact, writeArtifact, sampleRuns, hinside, hallowed, hsize, htext, hwrite,
      deniedPath, allowOverwrite, FileSystem.isDir, hnode]

/-- SHA-256 of the bytes `ff`, `ef bf bd`, `old` and `x\n`. -/
def sampleSha256 (bytes : ByteArray) : String :=
  if bytes.data = #[0xff] then "a8100ae6aa1940d0b663bb31cd466142ebbdbd5187131b92d93818987832eb89"
  else if bytes.data = #[0xef, 0xbf, 0xbd] then
    "83d544ccc223c057d2bf80d3f2a32982c32c3c0db8e2674820da5064783fb097"
  else if bytes.data = #[111, 108, 100] then
    "cba06b5736faf67e54b07b561eae94395e774c517a7d910a54369e1263ccfbd4"
  else "73cb3858a687a8494ca3323053016282f3dad39d42cf62ca4e79dda2aac7d9ac"

theorem sameBeforeHash_old :
    SameBeforeHash (sampleRuns sampleSha256 "old".toByteArray) :=
  (sameBeforeHash_iff (bothOverwrite_sample sampleSha256 "old".toByteArray)).mpr
    (.inl "old".isValidUTF8)

/-- The byte `ff` is not UTF-8: it is read as the replacement character. -/
theorem latin1_before_hashes_differ :
    BothOverwrite (sampleRuns sampleSha256 ⟨#[0xff]⟩) ⟨#[0xff]⟩ ∧
      ¬SameBeforeHash (sampleRuns sampleSha256 ⟨#[0xff]⟩) := by
  have hboth := bothOverwrite_sample sampleSha256 ⟨#[0xff]⟩
  refine ⟨hboth, fun hsame => ?_⟩
  have hread : Encoding.decodeUtf8 [0xff] = "\uFFFD" := by decide
  have hreencoded : reencoded ⟨#[0xff]⟩ = ⟨#[0xef, 0xbf, 0xbd]⟩ := by
    rw [reencoded, ByteArray.toList, Encoding.toList_loop]
    exact (congrArg String.toByteArray hread).trans (by decide)
  have heq := (sameBeforeHash_iff_hash_eq hboth).mp hsame
  rw [hreencoded] at heq
  exact absurd heq (by decide)

end OverwriteRuns

end KirkForge
