import KirkForge.CoreEvents.FileAuditSink

/-!
# Integrity of the file logs

What the rotation does to the files, and the two invariants of a log over time: the files hold what
was flushed, whatever fails, and as long as the sink keeps in step with the file it appends to,
every file is a chain of its own.
-/

namespace KirkForge.FileLog

open FileAuditSink HashChain AuditEvent

variable {env : FileEnv}

/-! ### Rotation -/

theorem rename_apply (files : LogFiles) (i j k : Nat) :
    files.rename i j k = if k = j then files i else if k = i then none else files k := by
  simp only [LogFiles.rename, Function.update_apply]

/-- The loop moves the files up by one and frees the first number. -/
theorem shift_apply {n : Nat} {files : LogFiles} (h : files (n + 1) = none) (k : Nat) :
    shift n files k =
      if k = 0 then files 0 else if k = 1 then none else if k ≤ n + 1 then files (k - 1) else
        files k := by
  induction n generalizing files with
  | zero =>
    simp only [shift]
    split
    · next h0 => rw [h0]
    split
    · next h1 => rw [h1, h]
    · rw [if_neg (by omega)]
  | succ n ih =>
    rw [shift]
    set moved := if (files (n + 1)).isSome then files.rename (n + 1) (n + 2) else files with hmoved
    have hmoved_apply (k : Nat) :
        moved k = if k = n + 2 then files (n + 1) else if k = n + 1 then none else files k := by
      rw [hmoved]
      split
      · exact rename_apply files (n + 1) (n + 2) k
      · next hnone =>
        rw [Option.not_isSome_iff_eq_none] at hnone
        split
        · next hk => rw [hk, h, hnone]
        split
        · next hk => rw [hk, hnone]
        · rfl
    have hfree : moved (n + 1) = none := by
      rw [hmoved_apply, if_neg (by omega), if_pos rfl]
    rw [ih hfree, hmoved_apply, hmoved_apply, hmoved_apply]
    by_cases h0 : k = 0
    · simp [h0]
    by_cases h1 : k = 1
    · simp [h1]
    by_cases hn : k ≤ n + 1
    · have h2 : k ≤ n + 2 := by omega
      have h3 : ¬k - 1 = n + 2 := by omega
      have h4 : ¬k - 1 = n + 1 := by omega
      simp [h0, h1, hn, h2, h3, h4]
    by_cases h2 : k = n + 2
    · subst h2
      simp
    · have h3 : ¬k ≤ n + 2 := by omega
      have h4 : ¬k = n + 1 := by omega
      simp [h0, h1, hn, h2, h3, h4]

/-- Where the oldest file is not overwritten, a rotation moves every file up by one. -/
theorem rotate_apply {sink : FileAuditSink} {files : LogFiles} {r : Nat}
    (hrotates : rotates env sink files = true) (hfiles : ∀ i, r < i → files i = none)
    (hr : r < sink.maxRotatedFiles) :
    rotate env sink files 0 = none ∧ ∀ k, rotate env sink files (k + 1) = files k := by
  obtain ⟨n, hn⟩ : ∃ n, sink.maxRotatedFiles = n + 1 := ⟨sink.maxRotatedFiles - 1, by omega⟩
  have hfree : files (n + 1) = none := hfiles (n + 1) (by omega)
  rw [rotate, if_pos hrotates, hn, Nat.add_sub_cancel]
  refine ⟨by simp [rename_apply], fun k => ?_⟩
  rw [rename_apply, shift_apply hfree, shift_apply hfree]
  by_cases h0 : k = 0
  · simp [h0]
  by_cases hk : k ≤ n
  · simp [h0, hk]
  · rw [hfiles k (by omega), hfiles (k + 1) (by omega)]
    simp [h0, hk]

/-- No rotation makes up a file. -/
theorem exists_of_rename {files : LogFiles} {i j k : Nat} {lines : List AuditEvent}
    (h : files.rename i j k = some lines) : ∃ k, files k = some lines := by
  rw [rename_apply] at h
  split at h
  · exact ⟨i, h⟩
  split at h
  · exact nomatch h
  · exact ⟨k, h⟩

theorem exists_of_shift {n k : Nat} {files : LogFiles} {lines : List AuditEvent}
    (h : shift n files k = some lines) : ∃ k, files k = some lines := by
  induction n generalizing files with
  | zero => exact ⟨k, h⟩
  | succ n ih =>
    rw [shift] at h
    obtain ⟨k', hk'⟩ := ih h
    split at hk'
    · exact exists_of_rename hk'
    · exact ⟨k', hk'⟩

theorem exists_of_rotate {sink : FileAuditSink} {files : LogFiles} {k : Nat}
    {lines : List AuditEvent} (h : rotate env sink files k = some lines) :
    ∃ k, files k = some lines := by
  rw [rotate] at h
  split at h
  · obtain ⟨k', hk'⟩ := exists_of_rename h
    exact exists_of_shift hk'
  · exact ⟨k, h⟩

theorem rotate_zero_of_rotates {sink : FileAuditSink} {files : LogFiles}
    (h : rotates env sink files = true) : rotate env sink files 0 = none := by
  rw [rotate, if_pos h]
  simp [rename_apply]

/-! ### The contents of the files -/

theorem contents_moved {files files' : LogFiles} (h : ∀ k, files' (k + 1) = files k) (n : Nat) :
    contents files' (n + 1) = contents files n ++ (files' 0).getD [] := by
  induction n with
  | zero => simp [contents]
  | succ n ih => rw [contents, ih, h, contents, List.append_assoc]

theorem contents_update (files : LogFiles) (new : List AuditEvent) (n : Nat) :
    contents (Function.update files 0 (some ((files 0).getD [] ++ new))) (n + 1) =
      contents files (n + 1) ++ new := by
  induction n with
  | zero => simp [contents]
  | succ n ih => rw [contents, ih, contents.eq_2 files (n + 1), List.append_assoc]; simp

theorem contents_create (files : LogFiles) (n : Nat) :
    contents (Function.update files 0 (some ((files 0).getD []))) n = contents files n := by
  induction n with
  | zero => rfl
  | succ n ih =>
    rw [contents, contents, ih]
    cases n with
    | zero => simp
    | succ n => simp

theorem untagged_sealBatch (p : String) (events : List AuditEvent) :
    ((sealBatch env p events).map stored).map untagged =
      events.map fun e => e.stored.untagged := by
  induction events generalizing p with
  | nil => rfl
  | cons e events ih => exact congrArg (e.stored.untagged :: ·) (ih _)

/-! ### What is flushed is on disk -/

structure Held (s : FileLog) : Prop where
  complete : Complete s
  pending : s.sink.buffer = s.pending

/-- The files after the rotation that a flush may begin with. -/
theorem Held.rotate {s : FileLog} (h : Held s)
    (hrot : rotates env s.sink s.files = true → s.rotations < s.sink.maxRotatedFiles) :
    ∃ r, (r = if rotates env s.sink s.files then s.rotations + 1 else s.rotations) ∧
      (∀ i, r < i → FileAuditSink.rotate env s.sink s.files i = none) ∧
      contents (FileAuditSink.rotate env s.sink s.files) (r + 1) =
        contents s.files (s.rotations + 1) := by
  refine ⟨_, rfl, ?_⟩
  split
  · next hrotates =>
    obtain ⟨hzero, hsucc⟩ := rotate_apply hrotates h.complete.files (hrot hrotates)
    refine ⟨fun i hi => ?_, ?_⟩
    · obtain ⟨k, rfl⟩ : ∃ k, i = k + 1 := ⟨i - 1, by omega⟩
      rw [hsucc]
      exact h.complete.files k (by omega)
    · rw [contents_moved hsucc, hzero]
      exact List.append_nil _
  · next hrotates =>
    rw [FileAuditSink.rotate, if_neg hrotates]
    exact ⟨h.complete.files, rfl⟩

theorem record_held {s : FileLog} (h : Held s) (hbuffer : s.sink.buffer ≠ [])
    (hrot : rotates env s.sink s.files = true → s.rotations < s.sink.maxRotatedFiles)
    (io : AppendOutcome) :
    Held (record env s (FileAuditSink.flush env io s.sink s.files)) := by
  obtain ⟨r, hr, hfiles, hcontents⟩ := h.rotate hrot
  have hlength : ¬s.sink.buffer.length = 0 := by simpa using hbuffer
  rw [FileAuditSink.flush, if_neg hlength]
  cases io with
  | done =>
    refine ⟨⟨fun i hi => ?_, ?_⟩, rfl⟩
    · simp only [record, ← hr] at hi ⊢
      rw [Function.update_of_ne (by omega)]
      exact hfiles i hi
    · simp only [record, ← hr, if_true]
      rw [contents_update, hcontents, List.map_append, h.complete.contents, untagged_sealBatch,
        List.map_append, h.pending]
  | failed created =>
    have hfalse : ¬false = true := Bool.false_ne_true
    refine ⟨⟨fun i hi => ?_, ?_⟩, by simp only [record, if_neg hfalse, h.pending]⟩
    · simp only [record, ← hr] at hi ⊢
      split
      · rw [Function.update_of_ne (by omega)]
        exact hfiles i hi
      · exact hfiles i hi
    · simp only [record, ← hr, if_neg hfalse]
      split
      · rw [contents_create, hcontents, h.complete.contents]
      · rw [hcontents, h.complete.contents]

/-- The event joins the buffer. -/
def push (s : FileLog) (event : AuditEvent) : FileLog :=
  { s with
    sink := { s.sink with buffer := s.sink.buffer ++ [event] }
    pending := s.pending ++ [event] }

/-- A write pushes the event and flushes the buffer if it is full. -/
theorem step_write (s : FileLog) (event : AuditEvent) (io : AppendOutcome) :
    step env s (.write event io) =
      if JsNumber.le s.sink.flushSize (s.sink.buffer.length + 1 : Nat) then
        record env (push s event) (FileAuditSink.flush env io (push s event).sink s.files)
      else push s event := by
  rw [step, FileAuditSink.write]
  simp only [List.length_append, List.length_singleton]
  by_cases hfull : JsNumber.le s.sink.flushSize (s.sink.buffer.length + 1 : Nat) = true
  · simp only [hfull, if_true]
    rfl
  · simp only [hfull, if_false, Bool.false_eq_true]
    rfl

theorem step_held {s : FileLog} {i : FileInput} (h : Held s) (hi : WithinRotations env s i) :
    Held (step env s i) := by
  cases i with
  | write event io =>
    have hpush : Held (push s event) := ⟨⟨h.complete.files, h.complete.contents⟩, by
      simp only [push, h.pending]⟩
    rw [step_write]
    split
    · next hfull => exact record_held hpush (by simp [push]) (hi hfull) io
    · exact hpush
  | flush io =>
    rw [step]
    split
    · exact h
    · next hlength =>
      have hbuffer : s.sink.buffer ≠ [] := by simpa using hlength
      exact record_held h hbuffer (hi hbuffer) io
  | reopen config => exact ⟨⟨h.complete.files, h.complete.contents⟩, rfl⟩

theorem init_held (config : FileAuditSinkConfig) : Held (init env config) :=
  ⟨⟨fun _ _ => rfl, rfl⟩, rfl⟩

/-! ### Every file is a chain -/

theorem auditErrors_eq_nil_iff {p : String} {n : Nat} {lines : List AuditEvent} :
    auditErrors env p n lines = [] ↔ Verifies env.crypto env.hmacKey p lines := by
  induction lines generalizing p n with
  | nil => exact iff_of_true rfl trivial
  | cons e lines ih =>
    rw [auditErrors]
    dsimp only
    split
    · next hempty =>
      refine iff_of_false (List.cons_ne_nil _ _) fun h => ?_
      exact h.chainHash_ne_empty e (List.mem_cons_self ..) hempty
    split
    · next hne => exact iff_of_false (List.cons_ne_nil _ _) fun h => hne h.1
    · next heq => rw [ih, Verifies, Verifies, Linked, and_iff_right (not_not.mp heq)]

theorem auditValid_iff {lines : List AuditEvent} : auditValid env lines = true ↔
    Verifies env.crypto env.hmacKey (genesis env) lines := by
  rw [auditValid, decide_eq_true_iff, auditErrors_eq_nil_iff]

/-- Every file is a chain from the genesis hash, and a sink in step holds the last hash of the file
that it appends to. -/
structure Chained (env : FileEnv) (s : FileLog) : Prop where
  files : ∀ i lines, s.files i = some lines →
    Verifies env.crypto env.hmacKey (genesis env) lines
  survive : ∀ e ∈ s.sink.buffer, e.SurvivesStorage
  fresh : s.standing = .fresh → s.sink.lastHash = genesis env
  inStep : s.standing = .inStep →
    s.sink.lastHash = lastTag chainHash (genesis env) ((s.files 0).getD [])

theorem Chained.verified {s : FileLog} (h : Chained env s) : Verified env s :=
  fun i lines hi => auditValid_iff.mpr (h.files i lines hi)

/-- A sound flush continues the file that it appends to. -/
theorem Chained.lastHash {s : FileLog} (h : Chained env s)
    (hs : (s.standing = .fresh ∧ BeginsFile env s) ∨
      (s.standing = .inStep ∧ rotates env s.sink s.files = false)) :
    s.sink.lastHash = lastTag chainHash (genesis env)
      ((FileAuditSink.rotate env s.sink s.files 0).getD []) := by
  rcases hs with ⟨hfresh, hbegins⟩ | ⟨hstep, hrotates⟩
  · have hnew : (FileAuditSink.rotate env s.sink s.files 0).getD [] = [] := by
      by_cases hrotates : rotates env s.sink s.files = true
      · rw [rotate_zero_of_rotates hrotates]
        rfl
      · rw [FileAuditSink.rotate, if_neg hrotates]
        exact hbegins.resolve_left hrotates
    rw [hnew, h.fresh hfresh]
    rfl
  · rw [FileAuditSink.rotate, if_neg (by simp [hrotates]), h.inStep hstep]

theorem record_chained {s : FileLog} (h : Chained env s) (hbuffer : s.sink.buffer ≠ [])
    {io : AppendOutcome}
    (hs : io = .done → (s.standing = .fresh ∧ BeginsFile env s) ∨
      (s.standing = .inStep ∧ rotates env s.sink s.files = false)) :
    Chained env (record env s (FileAuditSink.flush env io s.sink s.files)) := by
  have hrotated : ∀ i lines, FileAuditSink.rotate env s.sink s.files i = some lines →
      Verifies env.crypto env.hmacKey (genesis env) lines := fun i lines hi => by
    obtain ⟨k, hk⟩ := exists_of_rotate hi
    exact h.files k lines hk
  have hlog : Verifies env.crypto env.hmacKey (genesis env)
      ((FileAuditSink.rotate env s.sink s.files 0).getD []) := by
    cases hzero : FileAuditSink.rotate env s.sink s.files 0 with
    | none => trivial
    | some lines => exact hrotated 0 lines hzero
  have hlength : ¬s.sink.buffer.length = 0 := by simpa using hbuffer
  rw [FileAuditSink.flush, if_neg hlength]
  cases io with
  | done =>
    have hlast := h.lastHash (hs rfl)
    have hbatch : Verifies env.crypto env.hmacKey s.sink.lastHash
        ((sealBatch env s.sink.lastHash s.sink.buffer).map stored) := storedLog_verifies h.survive
    refine ⟨fun i lines hi => ?_, List.forall_mem_nil _, fun hfresh => ?_, fun _ => ?_⟩
    · simp only [record] at hi
      by_cases hzero : i = 0
      · subst hzero
        rw [Function.update_self] at hi
        rw [← Option.some.inj hi]
        exact HashChain.linked_append.mpr ⟨hlog, hlast ▸ hbatch⟩
      · rw [Function.update_of_ne hzero] at hi
        exact hrotated i lines hi
    · simp only [record] at hfresh
      split at hfresh <;> exact nomatch hfresh
    · simp only [record, Function.update_self, Option.getD_some]
      rw [lastTag_append, ← hlast, lastTag_map (f := stored) fun _ _ => rfl]
  | failed created =>
    refine ⟨fun i lines hi => ?_, h.survive, fun hfresh => ?_, fun hstep => ?_⟩
    · simp only [record] at hi
      split at hi
      · by_cases hzero : i = 0
        · subst hzero
          rw [Function.update_self] at hi
          rw [← Option.some.inj hi]
          exact hlog
        · rw [Function.update_of_ne hzero] at hi
          exact hrotated i lines hi
      · exact hrotated i lines hi
    · simp [record] at hfresh
    · simp [record] at hstep

theorem step_chained {s : FileLog} {i : FileInput} (h : Chained env s) (hi : Sound env s i) :
    Chained env (step env s i) := by
  cases i with
  | write event io =>
    have hpush : Chained env (push s event) :=
      ⟨h.files, List.forall_mem_append.mpr ⟨h.survive,
        List.forall_mem_singleton.mpr (hi.survives event io rfl)⟩, h.fresh, h.inStep⟩
    rw [step_write]
    split
    · next hfull => exact record_chained hpush (by simp [push]) (hi.standing hfull)
    · exact hpush
  | flush io =>
    rw [step]
    split
    · exact h
    · next hlength =>
      have hbuffer : s.sink.buffer ≠ [] := by simpa using hlength
      exact record_chained h hbuffer (hi.standing hbuffer)
  | reopen config => exact ⟨h.files, List.forall_mem_nil _, fun _ => rfl, nofun⟩

theorem init_chained (config : FileAuditSinkConfig) : Chained env (init env config) :=
  ⟨nofun, List.forall_mem_nil _, fun _ => rfl, nofun⟩

/-- Within the number of files that are kept, the files always hold what was flushed, and as long as
every call is sound each of them passes `audit-verify`. -/
theorem file_log_intact (env : FileEnv) (config : FileAuditSinkConfig) (inputs : List FileInput)
    (h : Run.AllSteps (step env) (WithinRotations env) (init env config) inputs) :
    Run.AllStates (step env) Complete (init env config) inputs ∧
      (Run.AllSteps (step env) (Sound env) (init env config) inputs →
        Run.AllStates (step env) (Verified env) (init env config) inputs) := by
  constructor
  · exact (Run.allStates_of_invariant (fun _ _ hs hi => step_held hs hi) (init_held config) h).mono
      fun _ hs => hs.complete
  · intro hsound
    exact (Run.allStates_of_invariant (fun _ _ hs hi => step_chained hs hi) (init_chained config)
      hsound).mono fun _ hs => hs.verified

def transparentEnv : FileEnv := { crypto := transparent, lineBytes := fun _ => 1 }

theorem withinRotations_of_lt {s : FileLog} (h : s.rotations < s.sink.maxRotatedFiles)
    (i : FileInput) : WithinRotations env s i := fun _ _ => h

theorem sound_reopen (s : FileLog) (config : FileAuditSinkConfig) :
    Sound env s (.reopen config) where
  survives _ _ h := absurd h (by simp)
  standing h := h.elim

theorem sound_flush_fresh {s : FileLog} (hfresh : s.standing = .fresh)
    (hbegins : BeginsFile env s) (io : AppendOutcome) : Sound env s (.flush io) where
  survives _ _ h := absurd h (by simp)
  standing _ _ := .inl ⟨hfresh, hbegins⟩

theorem sound_write_fresh {s : FileLog} {event : AuditEvent} (he : event.SurvivesStorage)
    (hfresh : s.standing = .fresh) (hbegins : BeginsFile env s) (io : AppendOutcome) :
    Sound env s (.write event io) :=
  ⟨fun _ _ h => (FileInput.write.inj h).1 ▸ he, fun _ _ => .inl ⟨hfresh, hbegins⟩⟩

instance (s : FileLog) : Decidable (BeginsFile env s) :=
  inferInstanceAs (Decidable (rotates env s.sink s.files = true ∨ (s.files 0).getD [] = []))

/-- A sink that is opened again before the log is rotated begins a new chain in a new file. -/
theorem file_log_intact_reopened :
    Run.AllStates (step transparentEnv) Complete
        (init transparentEnv { maxFileSizeBytes := 1 })
        [.write blankEvent .done, .flush .done, .reopen { maxFileSizeBytes := 1 },
          .write blankEvent .done, .flush .done] ∧
      Run.AllStates (step transparentEnv) (Verified transparentEnv)
        (init transparentEnv { maxFileSizeBytes := 1 })
        [.write blankEvent .done, .flush .done, .reopen { maxFileSizeBytes := 1 },
          .write blankEvent .done, .flush .done] := by
  have hintact := file_log_intact transparentEnv { maxFileSizeBytes := 1 }
    [.write blankEvent .done, .flush .done, .reopen { maxFileSizeBytes := 1 },
      .write blankEvent .done, .flush .done]
    ⟨withinRotations_of_lt (by decide) _, withinRotations_of_lt (by decide) _,
      withinRotations_of_lt (by decide) _, withinRotations_of_lt (by decide) _,
      withinRotations_of_lt (by decide) _, trivial⟩
  exact ⟨hintact.1, hintact.2
    ⟨sound_write_fresh blankEvent_survives (by decide) (by decide) _,
      sound_flush_fresh (by decide) (by decide) _, sound_reopen _ _,
      sound_write_fresh blankEvent_survives (by decide) (by decide) _,
      sound_flush_fresh (by decide) (by decide) _, trivial⟩⟩

/-- A sink that rotates its log continues the old chain in the new file. -/
theorem file_log_broken_by_rotation :
    ¬∀ (env : FileEnv) (config : FileAuditSinkConfig) (inputs : List FileInput),
      Run.AllSteps (step env) (WithinRotations env) (init env config) inputs →
        Run.AllStates (step env) (fun s => Complete s ∧ Verified env s) (init env config) inputs := by
  intro h
  have hlast := (h transparentEnv { maxFileSizeBytes := 1 }
    [.write blankEvent .done, .flush .done, .write blankEvent .done, .flush .done]
    ⟨withinRotations_of_lt (by decide) _, withinRotations_of_lt (by decide) _,
      withinRotations_of_lt (by decide) _, withinRotations_of_lt (by decide) _,
      trivial⟩).last
  have hbroken : ((Run.run (step transparentEnv) (init transparentEnv { maxFileSizeBytes := 1 })
      [.write blankEvent .done, .flush .done, .write blankEvent .done,
        .flush .done]).files 0).all (auditValid transparentEnv) = false := by
    decide
  have hvalid : ((Run.run (step transparentEnv) (init transparentEnv { maxFileSizeBytes := 1 })
      [.write blankEvent .done, .flush .done, .write blankEvent .done,
        .flush .done]).files 0).all (auditValid transparentEnv) = true :=
    (Option.all_eq_true _ _).mpr (hlast.2 0)
  exact Bool.false_ne_true (hbroken.symm.trans hvalid)

end KirkForge.FileLog
