import KirkForge.Orchestrator.PathSafety

/-!
# Write containment

What `writeArtifacts` does to the files on disk. The result list has one entry for each artifact,
the files that differ are those of the entries that are ok, and they lie below the working
directory; without leave to overwrite, a file that was there stays. The exception is the check for
hidden segments: it cuts a path at backslashes too, so a segment that begins with an allowed name
and a backslash is hidden and passes. `writeArtifacts_contained_iff` has no other exception.
-/

namespace KirkForge

/-- A segment that is hidden and none of the exceptions. -/
def HiddenSegment (s : List Char) : Prop :=
  s.head? = some '.' ∧ String.ofList s ∉ ALLOWED_HIDDEN_SEGMENTS

/-- A segment of which the check sees only the part before a backslash, a name that it lets pass. -/
def DisguisedSegment (s : List Char) : Prop :=
  ∃ name ∈ "." :: ".." :: ALLOWED_HIDDEN_SEGMENTS, name.toList ++ ['\\'] <+: s

/-- The checks that read nothing but the artifact and the profile. -/
structure PassesChecks (cwd : AbsPath) (profile : Option TaskProfileLike) (art : ParsedArtifact) :
    Prop where
  inside : isInsideCwd (cwd.resolve art.filePath) cwd = true
  allowed : disallowedArtifact art profile = none
  size : byteLength art.content ≤ MAX_ARTIFACT_BYTES
  text : isBinaryLikeContent art.content = false
  not_denied : deniedPath profile (cwd.relative (cwd.resolve art.filePath)) = false

/-- The last artifact with an ok result for a path. -/
def lastWritten (cwd : AbsPath) (p : List (List Char)) (arts : List ParsedArtifact)
    (results : List WriteResult) : Option ParsedArtifact :=
  (((arts.zip results).filter fun x =>
    x.2.ok ∧ (cwd.resolve x.1.filePath).segments = p).map Prod.fst).getLast?

/-- The entry of an artifact: an ok one names the path that was written. -/
def EntryFor (cwd : AbsPath) (art : ParsedArtifact) (result : WriteResult) : Prop :=
  result.filePath =
    if result.ok then cwd.relative (cwd.resolve art.filePath) else art.filePath

structure WritesContained (cwd : AbsPath) (profile : Option TaskProfileLike)
    (arts : List ParsedArtifact) (disk disk' : ArtifactDisk) (results : List WriteResult) :
    Prop where
  entries : List.Forall₂ (EntryFor cwd) arts results
  changed_iff : ∀ p, disk'.file? p ≠ disk.file? p ↔
    ∃ result ∈ results, result.ok = true ∧ (cwd.resolve result.filePath).segments = p
  contents : ∀ p art, lastWritten cwd p arts results = some art →
    ∃ id, disk'.file? p = some (id, art.content.toByteArray)
  inside : ∀ p, disk'.file? p ≠ disk.file? p → ∃ s rest, p = cwd.segments ++ s :: rest ∧
    ∀ t ∈ s :: rest, ¬HiddenSegment t
  kept : allowOverwrite profile = false → ∀ p f, disk.file? p = some f → disk'.file? p = some f

/-! ### The containment check -/

section Inside

open KirkForge.Path AbsPath

theorem isInsideCwd_iff {p cwd : AbsPath} : isInsideCwd p cwd = true ↔ p.Inside cwd := by
  constructor
  · intro h
    by_contra hinside
    rcases relative_of_not_inside hinside with hrel | hrel | ⟨l, hrel⟩
    · simp [isInsideCwd, hrel] at h
    · simp [isInsideCwd, hrel] at h
    · simp [isInsideCwd, hrel, Text.startsWith] at h
  · rintro ⟨s, rest, h⟩
    have hs := isSegment_of_inside h s (List.mem_cons_self ..)
    have hrel : (cwd.relative p).toList = s ++ slashed rest := by
      rw [relative_of_inside h, String.toList_ofList, intercalate_cons_eq]
    obtain ⟨c, s', hc⟩ := List.exists_cons_of_ne_nil hs.ne_nil
    have hslash : '/' ≠ c := by
      rintro rfl
      exact hs.no_slash (hc ▸ List.mem_cons_self ..)
    have hempty : cwd.relative p ≠ "" := by
      intro hempty
      rw [hempty, hc] at hrel
      exact nomatch hrel
    have hroot : Text.startsWith (cwd.relative p) "/" = false := by
      rw [Text.startsWith, hrel, hc]
      simp [List.isPrefixOf, hslash]
    have hup : Text.startsWith (cwd.relative p) "../" = false := by
      rw [Bool.eq_false_iff]
      intro hup
      obtain ⟨more, hmore⟩ := List.isPrefixOf_iff_prefix.mp hup
      rw [hrel] at hmore
      have hdots : '/' ∉ ['.', '.'] := by decide
      exact hs.ne_dots (append_inj_of_no_slash hdots hs.no_slash ⟨more, rfl⟩
        (slashed_eq_nil_or rest) hmore).1.symm
    have hparent : cwd.relative p ≠ ".." := by
      intro hparent
      rw [hparent] at hrel
      rcases slashed_eq_nil_or rest with hnil | ⟨l, hl⟩
      · rw [hnil, List.append_nil] at hrel
        exact hs.ne_dots hrel.symm
      · have hmem : '/' ∈ "..".toList := by
          rw [hrel, hl]
          simp
        exact absurd hmem (by decide)
    simp [isInsideCwd, hempty, hparent, hup, hroot]

end Inside

/-! ### The check for hidden segments -/

/-- The parts of each part between slashes are parts of the path. -/
theorem mem_splitOnP_of_mem_splitOn {path s t : List Char} (hs : s ∈ path.splitOn '/')
    (ht : t ∈ s.splitOnP isSeparator) : t ∈ path.splitOnP isSeparator := by
  obtain ⟨before, after, hsplit⟩ := List.append_of_mem hs
  have hpath : path = ['/'].intercalate (before ++ s :: after) := by
    rw [← hsplit, List.intercalate_splitOn]
  rw [hpath]
  clear hs hpath hsplit
  have hfirst (segments : List (List Char)) (u : List Char) (hu : t ∈ u.splitOnP isSeparator) :
      t ∈ (['/'].intercalate (u :: segments)).splitOnP isSeparator := by
    cases segments with
    | nil => simpa using hu
    | cons v segments =>
      rw [List.intercalate_cons_cons, List.append_assoc, List.singleton_append,
        List.splitOnP_append_cons _ _ (by decide)]
      exact List.mem_append_left _ hu
  induction before with
  | nil => exact hfirst after s ht
  | cons u before ih =>
    have hne : before ++ s :: after ≠ [] := by simp
    obtain ⟨v, segments, hv⟩ := List.exists_cons_of_ne_nil hne
    rw [List.cons_append, hv, List.intercalate_cons_cons, List.append_assoc,
      List.singleton_append, List.splitOnP_append_cons _ _ (by decide), ← hv]
    exact List.mem_append_right _ ih

/-- A part between slashes begins with a part that ends there or before a backslash. -/
theorem exists_part {s : List Char} (hs : '/' ∉ s) :
    ∃ t ∈ s.splitOnP isSeparator, t = s ∨ ∃ back, s = t ++ '\\' :: back := by
  by_cases hmem : '\\' ∈ s
  · obtain ⟨t, back, rfl, ht⟩ := List.eq_append_cons_of_mem hmem
    have hfront : ∀ c ∈ t, isSeparator c = false := by
      intro c hc
      have hslash : c ≠ '/' := by
        rintro rfl
        exact hs (List.mem_append_left _ hc)
      have hback : c ≠ '\\' := by
        rintro rfl
        exact ht hc
      simp [isSeparator, hslash, hback]
    rw [List.splitOnP_append_cons_of_forall_mem hfront _ (by decide)]
    exact ⟨t, List.mem_cons_self .., .inr ⟨back, rfl⟩⟩
  · have hfront : ∀ c ∈ s, isSeparator c = false := by
      intro c hc
      have hslash : c ≠ '/' := by
        rintro rfl
        exact hs hc
      have hback : c ≠ '\\' := by
        rintro rfl
        exact hmem hc
      simp [isSeparator, hslash, hback]
    rw [List.splitOnP_eq_singleton hfront]
    exact ⟨s, List.mem_singleton.mpr rfl, .inl rfl⟩

/-- A hidden part that the check lets pass. -/
theorem mem_of_hasHiddenSegment {path : String} (h : hasHiddenSegment path = false) {t : List Char}
    (ht : t ∈ path.toList.splitOnP isSeparator) (hdot : t.head? = some '.') :
    String.ofList t ∈ "." :: ".." :: ALLOWED_HIDDEN_SEGMENTS := by
  have hne : t ≠ [] := by
    rintro rfl
    exact nomatch hdot
  have hpart : String.ofList t ∈ pathParts path :=
    List.mem_map_of_mem (List.mem_filter.mpr ⟨ht, decide_eq_true hne⟩)
  have hstarts : Text.startsWith (String.ofList t) "." = true := by
    obtain ⟨c, t, rfl⟩ := List.exists_cons_of_ne_nil hne
    obtain rfl := Option.some.inj hdot
    simp [Text.startsWith, List.isPrefixOf]
  have hpass := List.any_eq_false.mp h _ hpart
  rw [hstarts] at hpass
  by_contra hmem
  simp only [List.mem_cons, not_or] at hmem
  simp [hmem.1, hmem.2.1, hmem.2.2] at hpass

/-- Below the working directory the check misses the disguised segments and no other. -/
theorem hiddenSegment_iff {path : String} {s : List Char} (h : hasHiddenSegment path = false)
    (hs : s ∈ path.toList.splitOn '/') (hsegment : Path.IsSegment s) :
    HiddenSegment s ↔ DisguisedSegment s := by
  constructor
  · rintro ⟨hdot, hnot⟩
    obtain ⟨t, ht, rfl | ⟨back, hback⟩⟩ := exists_part hsegment.no_slash
    · have hmem := mem_of_hasHiddenSegment h (mem_splitOnP_of_mem_splitOn hs ht) hdot
      rcases List.mem_cons.mp hmem with hdot | hmem
      · exact absurd (String.ofList_inj.mp hdot) hsegment.ne_dot
      · rcases List.mem_cons.mp hmem with hdots | hmem
        · exact absurd (String.ofList_inj.mp hdots) hsegment.ne_dots
        · exact absurd hmem hnot
    · have hhead : t.head? = some '.' := by
        cases t with
        | nil =>
          rw [hback] at hdot
          exact absurd (Option.some.inj hdot) (by decide)
        | cons c t =>
          rw [hback] at hdot
          exact hdot
      have hmem := mem_of_hasHiddenSegment h (mem_splitOnP_of_mem_splitOn hs ht) hhead
      refine ⟨String.ofList t, hmem, back, ?_⟩
      rw [hback, String.toList_ofList, List.append_assoc, List.singleton_append]
  · rintro ⟨name, hname, back, rfl⟩
    have hdot : name.toList.head? = some '.' := by
      have hall : ∀ n ∈ "." :: ".." :: ALLOWED_HIDDEN_SEGMENTS, n.toList.head? = some '.' := by
        decide
      exact hall name hname
    refine ⟨by simp [hdot], fun hmem => ?_⟩
    have hall : ∀ n ∈ ALLOWED_HIDDEN_SEGMENTS, '\\' ∉ n.toList := by decide
    exact hall _ hmem (by simp)

theorem PassesChecks.hiddenSegment_iff {cwd : AbsPath} {profile : Option TaskProfileLike}
    {art : ParsedArtifact} (h : PassesChecks cwd profile art) {rest : List (List Char)}
    (hrest : (cwd.resolve art.filePath).segments = cwd.segments ++ rest) {s : List Char}
    (hs : s ∈ rest) : HiddenSegment s ↔ DisguisedSegment s := by
  have hhidden : hasHiddenSegment art.filePath = false := by
    by_contra hhidden
    have hallowed := h.allowed
    simp only [disallowedArtifact, Bool.not_eq_false _ ▸ hhidden] at hallowed
    split at hallowed
    · exact nomatch hallowed
    · split at hallowed <;> exact nomatch hallowed
  have hsegment : Path.IsSegment s :=
    (cwd.resolve art.filePath).isSegment s (hrest ▸ List.mem_append_right _ hs)
  exact KirkForge.hiddenSegment_iff hhidden (AbsPath.mem_splitOn_of_resolve hrest hs) hsegment

/-! ### One artifact -/

section Writer

variable {sha256 : ByteArray → String} {cwd : AbsPath} {profile : Option TaskProfileLike}
  {io : WriteIo} {disk : ArtifactDisk} {art : ParsedArtifact}

/-- The path of the temporary file of a write. -/
def tmpPath (cwd : AbsPath) (io : WriteIo) (art : ParsedArtifact) : List (List Char) :=
  dirname (cwd.resolve art.filePath) ++ [tmpName io (cwd.resolve art.filePath)]

theorem dirname_append_lastName {p : AbsPath} (h : p.Inside cwd) :
    dirname p ++ [lastName p] = p.segments := by
  obtain ⟨s, rest, h⟩ := h
  have hne : p.segments ≠ [] := by simp [h]
  rw [dirname, lastName, List.getLastD_eq_getLast?, List.getLast?_eq_some_getLast hne,
    Option.getD_some, List.dropLast_append_getLast hne]

theorem tryWrite_eq_true {fullPath : AbsPath} {content : String} {disk' : ArtifactDisk}
    (h : tryWrite io disk fullPath content = (disk', true)) :
    disk.atomicWrite (dirname fullPath) (lastName fullPath) (tmpName io fullPath)
      content.toByteArray = some disk' := by
  simp only [tryWrite] at h
  split at h
  · cases (Prod.mk.inj h).2
  · split at h
    · cases (Prod.mk.inj h).2
    · next disk₁ hmkdirs =>
      split at h
      · cases (Prod.mk.inj h).2
      · next disk₂ hcreate =>
        split at h
        · cases (Prod.mk.inj h).2
        · next disk₃ hrename =>
          obtain ⟨rfl, -⟩ := Prod.mk.inj h
          exact Option.bind_eq_some_iff.mpr ⟨disk₁, hmkdirs, Option.bind_eq_some_iff.mpr
            ⟨disk₂, hcreate, hrename⟩⟩

theorem tryWrite_of_atomicWrite {fullPath : AbsPath} {content : String} {disk' : ArtifactDisk}
    (hstopped : io.stoppedAt = none)
    (h : disk.atomicWrite (dirname fullPath) (lastName fullPath) (tmpName io fullPath)
      content.toByteArray = some disk') : tryWrite io disk fullPath content = (disk', true) := by
  obtain ⟨disk₁, hmkdirs, h⟩ := Option.bind_eq_some_iff.mp h
  obtain ⟨disk₂, hcreate, hrename⟩ := Option.bind_eq_some_iff.mp h
  simp only [tryWrite, hstopped, hmkdirs, hcreate, hrename]

/-- A write that does not go through leaves every file as it is, or a temporary file beside a
directory of that name. -/
theorem tryWrite_eq_false {fullPath : AbsPath} {content : String} {disk' : ArtifactDisk}
    (hpath : dirname fullPath ++ [lastName fullPath] = fullPath.segments)
    (h : tryWrite io disk fullPath content = (disk', false)) :
    (disk'.nextId = disk.nextId ∧ ∀ q, disk'.file? q = disk.file? q) ∨
      disk.isDir fullPath.segments = true ∧ ∃ id, ∀ q, disk'.file? q =
        if q = dirname fullPath ++ [tmpName io fullPath] then some (id, content.toByteArray)
        else disk.file? q := by
  simp only [tryWrite] at h
  split at h
  · next n _ =>
    obtain ⟨rfl, -⟩ := Prod.mk.inj h
    left
    cases hmkdirs : disk.mkdirs ((dirname fullPath).take n) with
    | none => exact ⟨rfl, fun q => rfl⟩
    | some disk' =>
      exact ⟨(FileSystem.mkdirs_eq_some hmkdirs).2.1, FileSystem.file?_mkdirs hmkdirs⟩
  · split at h
    · obtain ⟨rfl, -⟩ := Prod.mk.inj h
      exact .inl ⟨rfl, fun q => rfl⟩
    · next disk₁ hmkdirs =>
      obtain ⟨-, hnext, hnode⟩ := FileSystem.mkdirs_eq_some hmkdirs
      split at h
      · obtain ⟨rfl, -⟩ := Prod.mk.inj h
        exact .inl ⟨hnext, FileSystem.file?_mkdirs hmkdirs⟩
      · next disk₂ hcreate =>
        split at h
        · next hrename =>
          obtain ⟨rfl, -⟩ := Prod.mk.inj h
          obtain ⟨hdir, id, hfile, hisDir⟩ := FileSystem.create_eq_some hcreate
          refine .inr ⟨?_, id, fun q => by rw [hfile, FileSystem.file?_mkdirs hmkdirs]⟩
          -- the move fails only where its new path is a directory, which is not a new one
          have hsame : disk₁.isDir fullPath.segments = disk.isDir fullPath.segments := by
            rw [FileSystem.isDir, FileSystem.isDir, hnode, if_neg]
            intro hprefix
            have hlength := hprefix.length_le
            rw [← hpath, List.length_append, List.length_singleton] at hlength
            omega
          rw [← hsame, ← hisDir, ← hpath]
          by_contra hnot
          obtain ⟨disk₃, hmoved⟩ := FileSystem.exists_rename ((hfile _).trans (if_pos rfl))
            ((hisDir _).trans hdir) (Bool.not_eq_true _ ▸ hnot)
          rw [hrename] at hmoved
          cases hmoved
        · cases (Prod.mk.inj h).2

/-- An artifact is written after passing the checks, and what it replaces has been read. -/
structure ArtifactWritten (sha256 : ByteArray → String) (cwd : AbsPath)
    (profile : Option TaskProfileLike) (io : WriteIo) (disk : ArtifactDisk) (art : ParsedArtifact)
    (disk' : ArtifactDisk) (result : WriteResult) : Prop where
  ok : result.ok = true
  filePath : result.filePath = cwd.relative (cwd.resolve art.filePath)
  pass : PassesChecks cwd profile art
  new : allowOverwrite profile = false → disk.file? (cwd.resolve art.filePath).segments = none
  readable : (disk.node (cwd.resolve art.filePath).segments).isSome = true → io.readable = true
  beforeHash : result.beforeHash =
    (disk.file? (cwd.resolve art.filePath).segments).map fun f => sha256 f.2
  write : tryWrite io disk (cwd.resolve art.filePath) art.content = (disk', true)

/-- What one artifact can do: be refused, fail to be written, or be written. -/
theorem writeArtifact_cases (sha256 : ByteArray → String) (cwd : AbsPath)
    (profile : Option TaskProfileLike) (io : WriteIo) (disk : ArtifactDisk)
    (art : ParsedArtifact) :
    (∃ disk' reason, writeArtifact sha256 cwd profile io disk art =
        (disk', blockedResult art reason) ∧ (disk' = disk ∨
          (cwd.resolve art.filePath).Inside cwd ∧
          disk.isDir (cwd.resolve art.filePath).segments = false ∧
          tryWrite io disk (cwd.resolve art.filePath) art.content = (disk', false))) ∨
      ∃ disk' result, writeArtifact sha256 cwd profile io disk art = (disk', result) ∧
        ArtifactWritten sha256 cwd profile io disk art disk' result := by
  have hblocked (reason : String) : ∃ disk' reason', (disk, blockedResult art reason) =
      (disk', blockedResult art reason') ∧ (disk' = disk ∨
        (cwd.resolve art.filePath).Inside cwd ∧
        disk.isDir (cwd.resolve art.filePath).segments = false ∧
        tryWrite io disk (cwd.resolve art.filePath) art.content = (disk', false)) :=
    ⟨disk, reason, rfl, .inl rfl⟩
  simp only [writeArtifact]
  split
  · exact .inl (hblocked _)
  · next hinside =>
    split
    · exact .inl (hblocked _)
    · next hallowed =>
      split
      · exact .inl (hblocked _)
      · next hsize =>
        split
        · exact .inl (hblocked _)
        · next htext =>
          split
          · exact .inl (hblocked _)
          · next hoverwrite =>
            split
            · exact .inl (hblocked _)
            · next hdenied =>
              split
              · exact .inl (hblocked _)
              · next hread =>
                cases hwrite : tryWrite io disk (cwd.resolve art.filePath) art.content with
                | mk disk' ok =>
                  cases ok with
                  | false =>
                    refine .inl ⟨disk', _, rfl, .inr ⟨?_, ?_, rfl⟩⟩
                    · exact isInsideCwd_iff.mp (by simpa using hinside)
                    · by_contra hdir
                      rw [Bool.not_eq_false] at hdir
                      refine hread ⟨?_, .inl hdir⟩
                      rw [FileSystem.isDir_iff.mp hdir]
                      rfl
                  | true =>
                    refine .inr ⟨disk', _, rfl, rfl, rfl, ?_, ?_, ?_, rfl, hwrite⟩
                    · exact ⟨by simpa using hinside, hallowed, Nat.le_of_not_lt hsize,
                        Bool.eq_false_iff.mpr htext, Bool.eq_false_iff.mpr hdenied⟩
                    · intro hno
                      rw [hno] at hoverwrite
                      have hnode : disk.node (cwd.resolve art.filePath).segments = none := by
                        simpa using hoverwrite
                      exact FileSystem.file?_of_node_eq_none hnode
                    · intro hexisted
                      have hcan := mt (And.intro hexisted) hread
                      simpa using (not_or.mp hcan).2

/-! ### A run over the artifacts -/

/-- Each write finds the name of its temporary file unused. -/
def FreshNames (sha256 : ByteArray → String) (cwd : AbsPath) (profile : Option TaskProfileLike)
    (io : Nat → WriteIo) : Nat → ArtifactDisk → List ParsedArtifact → Prop
  | _, _, [] => True
  | i, disk, art :: arts =>
    ((writeArtifact sha256 cwd profile (io i) disk art).2.ok = true →
      disk.node (tmpPath cwd (io i) art) = none) ∧
    FreshNames sha256 cwd profile io (i + 1)
      (writeArtifact sha256 cwd profile (io i) disk art).1 arts

/-- What one artifact changes, by its result. -/
theorem writeArtifact_spec {w : ArtifactDisk × WriteResult}
    (h : writeArtifact sha256 cwd profile io disk art = w)
    (hfresh : w.2.ok = true → disk.node (tmpPath cwd io art) = none) :
    EntryFor cwd art w.2 ∧ disk.nextId ≤ w.1.nextId ∧
      ((w.2.ok = false ∧ ∀ q, w.1.file? q = disk.file? q) ∨
        w.2.ok = true ∧ PassesChecks cwd profile art ∧
          (allowOverwrite profile = false →
            disk.file? (cwd.resolve art.filePath).segments = none) ∧
          ∀ q, w.1.file? q = if q = (cwd.resolve art.filePath).segments then
            some (disk.nextId, art.content.toByteArray) else disk.file? q) := by
  subst h
  rcases writeArtifact_cases sha256 cwd profile io disk art with
    ⟨disk', reason, heq, hsame⟩ | ⟨disk', result, heq, ⟨hok, hpath, hpass, hnone, -, -, hwrite⟩⟩
  · rw [heq]
    have hfile : disk'.nextId = disk.nextId ∧ ∀ q, disk'.file? q = disk.file? q := by
      obtain rfl | ⟨hinside, hnot, hwrite⟩ := hsame
      · exact ⟨rfl, fun q => rfl⟩
      · refine (tryWrite_eq_false (dirname_append_lastName hinside) hwrite).resolve_right ?_
        rintro ⟨hdir, -⟩
        rw [hnot] at hdir
        cases hdir
    exact ⟨rfl, hfile.1.ge, .inl ⟨rfl, hfile.2⟩⟩
  · rw [heq] at hfresh ⊢
    obtain ⟨hnext, hfile⟩ :=
      FileSystem.file?_atomicWrite (hfresh hok) (tryWrite_eq_true hwrite)
    rw [dirname_append_lastName (isInsideCwd_iff.mp hpass.inside)] at hfile
    refine ⟨by rw [EntryFor, if_pos hok, hpath], by simp only [hnext]; omega, .inr ?_⟩
    exact ⟨hok, hpass, hnone, hfile⟩

variable {ios : Nat → WriteIo} {arts : List ParsedArtifact}

/-- The result list has one entry for each artifact, in order, and who is ok passed the checks. -/
theorem entries_writeArtifacts {i : Nat} (hfresh : FreshNames sha256 cwd profile ios i disk arts) :
    List.Forall₂ (fun art result =>
        EntryFor cwd art result ∧ (result.ok = true → PassesChecks cwd profile art))
      arts (writeArtifacts sha256 cwd profile ios i disk arts).2 := by
  induction arts generalizing i disk with
  | nil => exact .nil
  | cons art arts ih =>
    simp only [writeArtifacts, FreshNames] at hfresh ⊢
    generalize hw : writeArtifact sha256 cwd profile (ios i) disk art = w at hfresh ⊢
    obtain ⟨hstep, hfresh⟩ := hfresh
    refine .cons ?_ (ih hfresh)
    obtain ⟨hentry, -, ⟨hnot, -⟩ | ⟨-, hpass, -⟩⟩ := writeArtifact_spec hw hstep
    · refine ⟨hentry, fun hok => ?_⟩
      rw [hok] at hnot
      cases hnot
    · exact ⟨hentry, fun _ => hpass⟩

/-- A write to a path is the last one there unless a later one is. -/
theorem lastWritten_cons (p : List (List Char)) (result : WriteResult)
    (results : List WriteResult) : lastWritten cwd p (art :: arts) (result :: results) =
      (lastWritten cwd p arts results).or
        (if result.ok = true ∧ (cwd.resolve art.filePath).segments = p then some art else none) := by
  simp only [lastWritten, List.zip_cons_cons, List.filter_cons, Bool.decide_and]
  split
  · next h =>
    have h' : result.ok = true ∧ (cwd.resolve art.filePath).segments = p := by simpa using h
    rw [if_pos h', List.map_cons, List.getLast?_cons]
    generalize List.getLast? _ = last
    cases last <;> rfl
  · next h =>
    have h' : ¬(result.ok = true ∧ (cwd.resolve art.filePath).segments = p) := by simpa using h
    rw [if_neg h', Option.or_none]

/-- The last ok artifact for a path decides the file there; without one it stays as it was. -/
theorem file?_writeArtifacts {i : Nat} (hfresh : FreshNames sha256 cwd profile ios i disk arts)
    (p : List (List Char)) :
    match lastWritten cwd p arts (writeArtifacts sha256 cwd profile ios i disk arts).2 with
    | some art => ∃ id ≥ disk.nextId,
      (writeArtifacts sha256 cwd profile ios i disk arts).1.file? p =
        some (id, art.content.toByteArray)
    | none => (writeArtifacts sha256 cwd profile ios i disk arts).1.file? p = disk.file? p := by
  induction arts generalizing i disk with
  | nil => rfl
  | cons art arts ih =>
    simp only [writeArtifacts, FreshNames] at hfresh ⊢
    generalize hw : writeArtifact sha256 cwd profile (ios i) disk art = w at hfresh ⊢
    obtain ⟨hstep, hfresh⟩ := hfresh
    obtain ⟨-, hnext, hcases⟩ := writeArtifact_spec hw hstep
    have hrest := ih hfresh
    rw [lastWritten_cons]
    cases hlast : lastWritten cwd p arts
        (writeArtifacts sha256 cwd profile ios (i + 1) w.1 arts).2 with
    | some later =>
      rw [hlast] at hrest
      obtain ⟨id, hid, hfile⟩ := hrest
      exact ⟨id, hnext.trans hid, hfile⟩
    | none =>
      rw [hlast] at hrest
      simp only [Option.none_or]
      split
      · next first hfirst =>
        obtain ⟨⟨hok, rfl⟩, hart⟩ := Option.ite_none_right_eq_some.mp hfirst
        obtain rfl := Option.some.inj hart
        rcases hcases with ⟨hnot, -⟩ | ⟨-, -, -, hfile⟩
        · rw [hok] at hnot
          cases hnot
        · exact ⟨disk.nextId, Nat.le_refl _, by rw [hrest, hfile, if_pos rfl]⟩
      · next hfirst =>
        rw [hrest]
        rcases hcases with ⟨-, hfile⟩ | ⟨hok, -, -, hfile⟩
        · exact hfile p
        · have hne : p ≠ (cwd.resolve art.filePath).segments := by
            rintro rfl
            rw [if_pos ⟨hok, rfl⟩] at hfirst
            cases hfirst
          rw [hfile, if_neg hne]

/-- Without leave to overwrite, a file that is there stays. -/
theorem kept_writeArtifacts {i : Nat} (hfresh : FreshNames sha256 cwd profile ios i disk arts)
    (hno : allowOverwrite profile = false) {p : List (List Char)} {f : Nat × ByteArray}
    (hf : disk.file? p = some f) :
    (writeArtifacts sha256 cwd profile ios i disk arts).1.file? p = some f := by
  induction arts generalizing i disk with
  | nil => exact hf
  | cons art arts ih =>
    simp only [writeArtifacts, FreshNames] at hfresh ⊢
    generalize hw : writeArtifact sha256 cwd profile (ios i) disk art = w at hfresh ⊢
    obtain ⟨hstep, hfresh⟩ := hfresh
    refine ih hfresh ?_
    obtain ⟨-, -, ⟨-, hfile⟩ | ⟨-, -, hnone, hfile⟩⟩ := writeArtifact_spec hw hstep
    · rw [hfile, hf]
    · have hne : p ≠ (cwd.resolve art.filePath).segments := by
        rintro rfl
        rw [hnone hno] at hf
        exact nomatch hf
      rw [hfile, if_neg hne, hf]

/-- An ok entry leads back to the path of its artifact. -/
theorem resolve_of_ok {result : WriteResult} (hpass : PassesChecks cwd profile art)
    (hentry : EntryFor cwd art result) (hok : result.ok = true) :
    cwd.resolve result.filePath = cwd.resolve art.filePath := by
  rw [EntryFor, if_pos hok] at hentry
  rw [hentry, AbsPath.resolve_relative (isInsideCwd_iff.mp hpass.inside)]

/-- There is a last ok artifact for a path just when there is an ok entry for it. -/
theorem lastWritten_isSome_iff {results : List WriteResult}
    (h : List.Forall₂ (fun art result =>
      EntryFor cwd art result ∧ (result.ok = true → PassesChecks cwd profile art)) arts results)
    (p : List (List Char)) : (lastWritten cwd p arts results).isSome ↔
      ∃ result ∈ results, result.ok = true ∧ (cwd.resolve result.filePath).segments = p := by
  induction h with
  | nil => simp [lastWritten]
  | @cons art result arts results hhead _ ih =>
    have hiff : (result.ok = true ∧ (cwd.resolve art.filePath).segments = p) ↔
        result.ok = true ∧ (cwd.resolve result.filePath).segments = p :=
      and_congr_right fun hok => by rw [resolve_of_ok (hhead.2 hok) hhead.1 hok]
    rw [lastWritten_cons, Option.isSome_or, Bool.or_eq_true, ih, List.exists_mem_cons_iff, ← hiff,
      or_comm]
    simp

/-- Whoever is written last for a path passed the checks. -/
theorem passesChecks_of_lastWritten {results : List WriteResult}
    (h : List.Forall₂ (fun art result =>
      EntryFor cwd art result ∧ (result.ok = true → PassesChecks cwd profile art)) arts results)
    {p : List (List Char)} {art : ParsedArtifact} (hart : lastWritten cwd p arts results = some art) :
    art ∈ arts ∧ PassesChecks cwd profile art ∧ (cwd.resolve art.filePath).segments = p := by
  induction h with
  | nil => exact nomatch hart
  | cons hhead _ ih =>
    rw [lastWritten_cons, Option.or_eq_some_iff] at hart
    rcases hart with hart | ⟨-, hart⟩
    · obtain ⟨hmem, hpass⟩ := ih hart
      exact ⟨List.mem_cons_of_mem _ hmem, hpass⟩
    · obtain ⟨⟨hok, hp⟩, hart⟩ := Option.ite_none_right_eq_some.mp hart
      obtain rfl := Option.some.inj hart
      exact ⟨List.mem_cons_self .., hhead.2 hok, hp⟩

/-! ### A run in which one artifact is written -/

/-- Nothing is there except the directories down to the working directory. -/
def BareDisk (cwd : AbsPath) (disk : ArtifactDisk) : Prop :=
  ∀ p, disk.node p ≠ none → p <+: cwd.segments ∧ disk.file? p = none

theorem bareDisk_onlyDirs (cwd : AbsPath) : BareDisk cwd (FileSystem.onlyDirs cwd.segments) := by
  intro p hp
  refine ⟨?_, FileSystem.file?_onlyDirs cwd.segments p⟩
  by_contra hnot
  exact hp (if_neg hnot)

theorem BareDisk.node_eq_none {p : AbsPath} (h : BareDisk cwd disk) (hp : p.Inside cwd)
    (name : List Char) : disk.node (dirname p ++ [name]) = none := by
  by_contra hnode
  obtain ⟨s, rest, hp⟩ := hp
  have hlen := (h _ hnode).1.length_le
  simp only [dirname, List.length_append, List.length_dropLast, hp, List.length_cons,
    List.length_nil] at hlen
  omega

theorem BareDisk.file?_eq_none (h : BareDisk cwd disk) (p : List (List Char)) :
    disk.file? p = none := by
  by_cases hnode : disk.node p = none
  · exact FileSystem.file?_of_node_eq_none hnode
  · exact (h p hnode).2

theorem tryWrite_stopped {n : Nat} (h : io.stoppedAt = some n) (fullPath : AbsPath)
    (content : String) : (tryWrite io disk fullPath content).2 = false := by
  simp only [tryWrite, h]

/-- A write that something stops is not ok. -/
theorem writeArtifact_stopped {n : Nat} (h : io.stoppedAt = some n) :
    (writeArtifact sha256 cwd profile io disk art).2.ok = false := by
  rcases writeArtifact_cases sha256 cwd profile io disk art with
    ⟨disk', reason, heq, -⟩ | ⟨disk', result, -, h'⟩
  · rw [heq]
    rfl
  · have hnot : (tryWrite io disk (cwd.resolve art.filePath) art.content).2 = false :=
      tryWrite_stopped h (cwd.resolve art.filePath) art.content
    rw [h'.write] at hnot
    exact nomatch hnot

/-- Before its first directory a stopped write changes nothing. -/
theorem bareDisk_writeArtifact (h : io.stoppedAt = some 0) (hbare : BareDisk cwd disk) :
    BareDisk cwd (writeArtifact sha256 cwd profile io disk art).1 := by
  have hstopped (disk' : ArtifactDisk) (ok : Bool)
      (hwrite : tryWrite io disk (cwd.resolve art.filePath) art.content = (disk', ok)) :
      BareDisk cwd disk' := by
    simp only [tryWrite, h, List.take_zero] at hwrite
    obtain ⟨rfl, -⟩ := Prod.mk.inj hwrite
    cases hmkdirs : disk.mkdirs [] with
    | none => exact hbare
    | some disk' =>
      intro p hp
      obtain ⟨-, -, hnode⟩ := FileSystem.mkdirs_eq_some hmkdirs
      refine ⟨?_, (FileSystem.file?_mkdirs hmkdirs p).trans (hbare.file?_eq_none p)⟩
      by_cases hroot : p <+: []
      · exact hroot.trans List.nil_prefix
      · rw [Option.getD_some, hnode, if_neg hroot] at hp
        exact (hbare p hp).1
  rcases writeArtifact_cases sha256 cwd profile io disk art with
    ⟨disk', reason, heq, rfl | ⟨-, -, hwrite⟩⟩ | ⟨disk', result, heq, hwritten⟩
  · rw [heq]
    exact hbare
  · rw [heq]
    exact hstopped disk' false hwrite
  · rw [heq]
    exact hstopped disk' true hwritten.write

/-- On a bare disk an artifact that passes the checks is written. -/
theorem writeArtifact_written (h : io.stoppedAt = none) (hbare : BareDisk cwd disk)
    (hpass : PassesChecks cwd profile art) :
    (writeArtifact sha256 cwd profile io disk art).2.ok = true := by
  have hinside := isInsideCwd_iff.mp hpass.inside
  have hnone : disk.node (cwd.resolve art.filePath).segments = none := by
    rw [← dirname_append_lastName hinside, hbare.node_eq_none hinside]
  obtain ⟨disk', hwrite⟩ : ∃ disk', disk.atomicWrite (dirname (cwd.resolve art.filePath))
      (lastName (cwd.resolve art.filePath)) (tmpName io (cwd.resolve art.filePath))
      art.content.toByteArray = some disk' := by
    refine FileSystem.exists_atomicWrite (fun q _ => hbare.file?_eq_none q)
      (hbare.node_eq_none hinside _) ?_
    rw [FileSystem.isDir, hbare.node_eq_none hinside]
  simp [writeArtifact, hpass.inside, hpass.allowed, Nat.not_lt.mpr hpass.size, hpass.text,
    hpass.not_denied, hnone, tryWrite_of_atomicWrite h hwrite]

/-- Every write is stopped but the `k`-th. -/
def onlyWrite (k i : Nat) : WriteIo where
  now := 0
  random := "00000000"
  message := "write stopped"
  readable := true
  stoppedAt := if i = k then none else some 0

theorem freshNames_onlyWrite {k i : Nat} (h : k < i) :
    FreshNames sha256 cwd profile (onlyWrite k) i disk arts := by
  induction arts generalizing i disk with
  | nil => trivial
  | cons art arts ih =>
    refine ⟨fun hok => ?_, ih (Nat.lt_succ_of_lt h)⟩
    have hstopped : (onlyWrite k i).stoppedAt = some 0 := if_neg (Nat.ne_of_gt h)
    rw [writeArtifact_stopped hstopped] at hok
    exact nomatch hok

/-- Of the artifacts on a bare disk, one that passes the checks can be the one that is written. -/
theorem exists_written (sha256 : ByteArray → String) {before after : List ParsedArtifact} {i : Nat}
    (hbare : BareDisk cwd disk) (hpass : PassesChecks cwd profile art) :
    FreshNames sha256 cwd profile (onlyWrite (i + before.length)) i disk (before ++ art :: after) ∧
      ∃ result ∈ (writeArtifacts sha256 cwd profile (onlyWrite (i + before.length)) i disk
          (before ++ art :: after)).2, result.ok = true ∧ EntryFor cwd art result := by
  induction before generalizing i disk with
  | nil =>
    have hwritten : (onlyWrite i i).stoppedAt = none := if_pos rfl
    have hok : (writeArtifact sha256 cwd profile (onlyWrite i i) disk art).2.ok = true :=
      writeArtifact_written hwritten hbare hpass
    have hfresh := hbare.node_eq_none (isInsideCwd_iff.mp hpass.inside)
      (tmpName (onlyWrite i i) (cwd.resolve art.filePath))
    refine ⟨⟨fun _ => hfresh, freshNames_onlyWrite (Nat.lt_succ_self i)⟩, ?_⟩
    exact ⟨_, List.mem_cons_self .., hok, (writeArtifact_spec rfl fun _ => hfresh).1⟩
  | cons first before ih =>
    have hstopped : (onlyWrite (i + (first :: before).length) i).stoppedAt = some 0 :=
      if_neg (by rw [List.length_cons]; omega)
    have hlen : i + (first :: before).length = i + 1 + before.length := by
      rw [List.length_cons]
      omega
    have hbare' : BareDisk cwd (writeArtifact sha256 cwd profile
        (onlyWrite (i + (first :: before).length) i) disk first).1 :=
      bareDisk_writeArtifact hstopped hbare
    have hrest := ih hbare' (i := i + 1)
    rw [← hlen] at hrest
    obtain ⟨hfresh, result, hresult, hok⟩ := hrest
    refine ⟨⟨fun hfirst => ?_, hfresh⟩, result, List.mem_cons_of_mem _ hresult, hok⟩
    rw [writeArtifact_stopped hstopped] at hfirst
    exact nomatch hfirst

/-- The writer leaves the containment promise on some disk if an artifact has a segment that the
check for hidden segments misses. -/
theorem not_contained_of_disguised (sha256 : ByteArray → String) (hart : art ∈ arts)
    (hpass : PassesChecks cwd profile art) {s : List Char}
    (hs : s ∈ (cwd.resolve art.filePath).segments.drop cwd.segments.length)
    (hdisguised : DisguisedSegment s) :
    ∃ io disk, FreshNames sha256 cwd profile io 0 disk arts ∧
      ¬WritesContained cwd profile arts disk
        (writeArtifacts sha256 cwd profile io 0 disk arts).1
        (writeArtifacts sha256 cwd profile io 0 disk arts).2 := by
  obtain ⟨before, after, rfl⟩ := List.append_of_mem hart
  obtain ⟨hfresh, result, hresult, hok, hentry⟩ :=
    exists_written sha256 (bareDisk_onlyDirs cwd) hpass (i := 0)
  refine ⟨_, _, hfresh, fun h => ?_⟩
  have hpath := resolve_of_ok hpass hentry hok
  have hchanged := (h.changed_iff (cwd.resolve art.filePath).segments).mpr
    ⟨result, hresult, hok, by rw [hpath]⟩
  obtain ⟨t, rest, hsegments, hvisible⟩ := h.inside _ hchanged
  rw [hsegments, List.drop_left] at hs
  exact hvisible s hs ((hpass.hiddenSegment_iff hsegments hs).mpr hdisguised)

/-- Whatever the disk, the files written are those of the ok results and lie below the working
directory, unless an artifact that passes the checks has a disguised segment. -/
theorem writeArtifacts_contained_iff (sha256 : ByteArray → String) (cwd : AbsPath)
    (profile : Option TaskProfileLike) (arts : List ParsedArtifact) :
    (∀ io disk, FreshNames sha256 cwd profile io 0 disk arts →
      WritesContained cwd profile arts disk
        (writeArtifacts sha256 cwd profile io 0 disk arts).1
        (writeArtifacts sha256 cwd profile io 0 disk arts).2) ↔
    ∀ art ∈ arts, PassesChecks cwd profile art →
      ∀ s ∈ (cwd.resolve art.filePath).segments.drop cwd.segments.length, ¬DisguisedSegment s := by
  constructor
  · intro h art hart hpass s hs hdisguised
    obtain ⟨io, disk, hfresh, hnot⟩ := not_contained_of_disguised sha256 hart hpass hs hdisguised
    exact hnot (h io disk hfresh)
  · intro h io disk hfresh
    have hentries := entries_writeArtifacts hfresh
    have hlast (p : List (List Char)) := file?_writeArtifacts hfresh p
    have hchanged (p : List (List Char)) :
        (writeArtifacts sha256 cwd profile io 0 disk arts).1.file? p ≠ disk.file? p ↔
          (lastWritten cwd p arts (writeArtifacts sha256 cwd profile io 0 disk arts).2).isSome := by
      specialize hlast p
      constructor
      · intro hne
        by_contra hnone
        rw [Option.not_isSome_iff_eq_none.mp hnone] at hlast
        exact hne hlast
      · intro hsome heq
        obtain ⟨art, hart⟩ := Option.isSome_iff_exists.mp hsome
        rw [hart] at hlast
        obtain ⟨id, hid, hfile⟩ := hlast
        have hlt := FileSystem.id_lt_of_file? (heq.symm.trans hfile)
        exact Nat.not_lt_of_le hid hlt
    refine ⟨hentries.imp fun _ _ => And.left, fun p => ?_, fun p art hart => ?_, fun p hp => ?_,
      fun hno p f hf => kept_writeArtifacts hfresh hno hf⟩
    · rw [hchanged, lastWritten_isSome_iff hentries]
    · specialize hlast p
      rw [hart] at hlast
      obtain ⟨id, -, hfile⟩ := hlast
      exact ⟨id, hfile⟩
    · obtain ⟨art, hart⟩ := Option.isSome_iff_exists.mp ((hchanged p).mp hp)
      obtain ⟨hmem, hpass, hpath⟩ := passesChecks_of_lastWritten hentries hart
      obtain ⟨s, rest, hsegments⟩ := isInsideCwd_iff.mp hpass.inside
      refine ⟨s, rest, by rw [← hpath, hsegments], fun t ht hhidden => ?_⟩
      refine h art hmem hpass t ?_ ((hpass.hiddenSegment_iff hsegments ht).mp hhidden)
      rw [hsegments, List.drop_left]
      exact ht

/-- The directory `.\hooks` is hidden, and the file is written into it. -/
theorem writeArtifacts_into_hidden_directory : ¬∀ io disk,
    FreshNames (fun _ => "") (AbsPath.root.resolve "/work") none io 0 disk
      [⟨".\\hooks/run.txt", "x"⟩] →
    WritesContained (AbsPath.root.resolve "/work") none [⟨".\\hooks/run.txt", "x"⟩] disk
      (writeArtifacts (fun _ => "") (AbsPath.root.resolve "/work") none io 0 disk
        [⟨".\\hooks/run.txt", "x"⟩]).1
      (writeArtifacts (fun _ => "") (AbsPath.root.resolve "/work") none io 0 disk
        [⟨".\\hooks/run.txt", "x"⟩]).2 := by
  intro h
  have hpass : PassesChecks (AbsPath.root.resolve "/work") none ⟨".\\hooks/run.txt", "x"⟩ :=
    ⟨by decide, by decide, by decide, by decide, rfl⟩
  have hsegment : ".\\hooks".toList ∈ ((AbsPath.root.resolve "/work").resolve
      ".\\hooks/run.txt").segments.drop (AbsPath.root.resolve "/work").segments.length := by
    decide
  obtain ⟨io, disk, hfresh, hnot⟩ := not_contained_of_disguised (fun _ => "")
    (List.mem_singleton.mpr rfl) hpass hsegment ⟨".", List.mem_cons_self .., by decide⟩
  exact hnot (h io disk hfresh)

end Writer

end KirkForge
