import KirkForge.CoreEvents.WormAuditSink

/-!
# Integrity of the write-once log

The invariant of a write-once log: the segments are numbered without a gap, the current one is the
last of them or the next, the lines replay, and the buffer continues them unless no more can be
written before the sink is opened again.
-/

namespace KirkForge.Worm

open WormAuditSink HashChain AuditEvent

variable {env : WormEnv}

/-! ### Reading -/

theorem replay_eq_some_iff {p q : String} {lines : List AuditEvent} :
    replay env p lines = some q ↔
      Verifies env.crypto env.hmacKey p lines ∧ q = lastTag chainHash p lines := by
  induction lines generalizing p with
  | nil => simp [replay, Verifies, Linked, eq_comm]
  | cons e lines ih =>
    rw [replay]
    split
    · next hne => exact iff_of_false (by rintro ⟨⟩) fun h => hne h.1.1
    · next heq =>
      rw [ih, Verifies, Verifies, Linked, and_iff_right (not_not.mp heq), lastTag_cons]

theorem foldlM_replay_iff {p q : String} {segments : List (Nat × List AuditEvent)} :
    segments.foldlM (fun prevHash segment => replay env prevHash segment.2) p = some q ↔
      Verifies env.crypto env.hmacKey p (segments.flatMap Prod.snd) ∧
        q = lastTag chainHash p (segments.flatMap Prod.snd) := by
  induction segments generalizing p with
  | nil => simp [Verifies, Linked, eq_comm]
  | cons segment segments ih =>
    rw [List.foldlM_cons, Option.bind_eq_bind, Option.bind_eq_some_iff, List.flatMap_cons, Verifies,
      linked_append, lastTag_append]
    constructor
    · rintro ⟨r, hr, h⟩
      obtain ⟨hfirst, rfl⟩ := replay_eq_some_iff.mp hr
      obtain ⟨hrest, hq⟩ := ih.mp h
      exact ⟨⟨hfirst, hrest⟩, hq⟩
    · rintro ⟨⟨hfirst, hrest⟩, hq⟩
      exact ⟨_, replay_eq_some_iff.mpr ⟨hfirst, rfl⟩, ih.mpr ⟨hrest, hq⟩⟩

theorem verifyIntegrity_iff {directory : SegmentDirectory} :
    verifyIntegrity env directory = true ↔ Verifies env.crypto env.hmacKey (genesis env)
      ((readSegments env directory).flatMap Prod.snd) := by
  rw [verifyIntegrity, Option.isSome_iff_exists]
  constructor
  · rintro ⟨q, h⟩
    exact (foldlM_replay_iff.mp h).1
  · intro h
    exact ⟨_, foldlM_replay_iff.mpr ⟨h, rfl⟩⟩

/-! ### The numbers of the segments -/

/-- The segments are numbered from zero, and the current one is the last or the next. -/
structure Numbered (directory : SegmentDirectory) (current : Nat) : Prop where
  numbers : directory.entries.map Prod.fst = List.range directory.entries.length
  current : current = directory.entries.length ∨ current + 1 = directory.entries.length
  few : directory.entries.length ≤ 1000000

/-- The lines of all segments in the order of their numbers. -/
def lines (directory : SegmentDirectory) : List AuditEvent := directory.entries.flatMap Prod.snd

/-- Up to a million segments the names sort like the numbers. -/
theorem readSegments_eq {directory : SegmentDirectory} {current : Nat}
    (h : Numbered directory current) : readSegments env directory = directory.entries := by
  refine List.Pairwise.insertionSort_eq ?_
  have hrange : (directory.entries.map Prod.fst).Pairwise (· < ·) := by
    rw [h.numbers]
    exact List.pairwise_lt_range
  rw [List.pairwise_map] at hrange
  refine hrange.imp_of_mem fun {a b} _ hb hab => ?_
  have hmem : b.1 ∈ directory.entries.map Prod.fst := List.mem_map_of_mem hb
  rw [h.numbers, List.mem_range] at hmem
  have hb' : b.1 < 10 ^ (5 + 1) := by
    have hfew := h.few
    omega
  exact Text.paddedName_le hab hb' _ _

theorem get?_eq_none_iff {directory : SegmentDirectory} {current : Nat}
    (h : Numbered directory current) :
    directory.get? current = none ↔ current = directory.entries.length := by
  rw [OrderedMap.get?_eq_none_iff, OrderedMap.keys, h.numbers, List.mem_range]
  rcases h.current with hc | hc <;> omega

/-- The entries before the current one, and the current one if it is there. -/
theorem exists_split {directory : SegmentDirectory} {current : Nat}
    (h : Numbered directory current) : ∃ front back, directory.entries = front ++ back ∧
      front.map Prod.fst = List.range current ∧
      (back = [] ∨ ∃ old, back = [(current, old)]) := by
  rcases h.current with hc | hc
  · exact ⟨directory.entries, [], (List.append_nil _).symm, hc ▸ h.numbers, .inl rfl⟩
  · have hnumbers := h.numbers
    rcases List.eq_nil_or_concat directory.entries with hnil | ⟨front, e, hfront⟩
    · rw [hnil] at hc
      exact absurd hc (Nat.succ_ne_zero _)
    · rw [List.concat_eq_append] at hfront
      rw [← hc, hfront, List.range_succ, List.map_append] at hnumbers
      obtain ⟨hmap, he⟩ := List.append_inj' hnumbers rfl
      have he : e.1 = current := by simpa using he
      exact ⟨front, [e], hfront, hmap, .inr ⟨e.2, by rw [← he]⟩⟩

/-- Appending to the current segment, which may have to be created. -/
theorem Numbered.set {directory : SegmentDirectory} {current : Nat} (h : Numbered directory current)
    (hfew : directory.entries.length < 1000000) (new : List AuditEvent) :
    Numbered (directory.set current ((directory.get? current).getD [] ++ new)) current ∧
      lines (directory.set current ((directory.get? current).getD [] ++ new)) =
        lines directory ++ new := by
  obtain ⟨front, back, hentries, hfront, hback⟩ := exists_split h
  have hnot : current ∉ front.map Prod.fst := by simp [hfront]
  have hlen : front.length = current := by simpa using congrArg List.length hfront
  have hget : directory.get? current = OrderedMap.lookup current back := by
    rw [OrderedMap.get?, hentries, OrderedMap.lookup_append hnot]
  have hset (v : List AuditEvent) :
      (directory.set current v).entries = front ++ OrderedMap.insert current v back := by
    rw [← OrderedMap.insert_append hnot, ← hentries]
    rfl
  have hinsert (v : List AuditEvent) : OrderedMap.insert current v back = [(current, v)] := by
    rcases hback with rfl | ⟨old, rfl⟩ <;> simp [OrderedMap.insert]
  refine ⟨⟨?_, ?_, ?_⟩, ?_⟩
  · rw [hset, hinsert, List.map_append, hfront, List.length_append, hlen, List.length_singleton,
      List.range_succ]
    rfl
  · rw [hset, hinsert, List.length_append, hlen]
    exact .inr rfl
  · rw [hset, hinsert, List.length_append, hlen, List.length_singleton]
    rcases h.current with hc | hc <;> omega
  · rw [lines, lines, hset, hinsert, hentries, hget]
    rcases hback with rfl | ⟨old, rfl⟩ <;> simp [OrderedMap.lookup]

/-! ### The invariant -/

/-- The buffer continues the lines on disk, and holds the events that wait for a flush. -/
structure Synced (env : WormEnv) (s : Worm) : Prop where
  linked : Verifies env.crypto env.hmacKey (lastTag chainHash (genesis env) (lines s.directory))
    s.sink.buffer
  lastHash : s.sink.lastHash =
    lastTag chainHash (lastTag chainHash (genesis env) (lines s.directory)) s.sink.buffer
  pending : s.sink.buffer.map untagged = s.pending.map untagged
  survive : ∀ e ∈ s.sink.buffer, e.SurvivesStorage

structure Inv (env : WormEnv) (s : Worm) : Prop where
  numbered : Numbered s.directory s.sink.currentSegment
  linked : Verifies env.crypto env.hmacKey (genesis env) (lines s.directory)
  content : (lines s.directory).map untagged = s.flushed.map fun e => e.stored.untagged
  /-- At the limit of segments nothing is written until the sink is opened again. -/
  sync : Synced env s ∨ atLimit s.sink s.directory = true

theorem Inv.intact {s : Worm} (h : Inv env s) : Intact env s := by
  refine ⟨verifyIntegrity_iff.mpr ?_, ?_⟩
  · rw [readSegments_eq h.numbered]
    exact h.linked
  · rw [storedLines, readSegments_eq h.numbered]
    exact h.content

theorem Synced.lastHash_append {s : Worm} (h : Synced env s) :
    s.sink.lastHash =
      lastTag chainHash (genesis env) (lines s.directory ++ s.sink.buffer.map stored) := by
  rw [lastTag_append, lastTag_map (f := stored) fun _ _ => rfl, h.lastHash]

/-- Writing the buffer to disk. -/
theorem Synced.linked_append {s : Worm} (h : Inv env s) (hs : Synced env s) :
    Verifies env.crypto env.hmacKey (genesis env)
      (lines s.directory ++ s.sink.buffer.map stored) := by
  refine HashChain.linked_append.mpr ⟨h.linked, ?_⟩
  refine (linked_map_iff (f := stored) fun e he => ⟨rfl, ?_⟩).mpr hs.linked
  exact chainHashOf_stored (hs.survive e he) env.crypto env.hmacKey

theorem Synced.content_append {s : Worm} (h : Inv env s) (hs : Synced env s) :
    (lines s.directory ++ s.sink.buffer.map stored).map untagged =
      (s.flushed ++ s.pending).map fun e => e.stored.untagged := by
  have hstored : (s.sink.buffer.map stored).map untagged =
      s.pending.map fun e => e.stored.untagged := by
    calc (s.sink.buffer.map stored).map untagged
        = (s.sink.buffer.map untagged).map stored := by simp [Function.comp_def, stored, untagged]
      _ = (s.pending.map untagged).map stored := by rw [hs.pending]
      _ = s.pending.map fun e => e.stored.untagged := by
        simp [Function.comp_def, stored, untagged]
  rw [List.map_append, List.map_append, h.content, hstored]

theorem Numbered.length_of_some {directory : SegmentDirectory} {current : Nat}
    {old : List AuditEvent} (h : Numbered directory current)
    (hget : directory.get? current = some old) : current + 1 = directory.entries.length := by
  rcases h.current with hc | hc
  · rw [(get?_eq_none_iff h).mpr hc] at hget
    exact nomatch hget
  · exact hc

/-- Going on to the next segment changes nothing but the number. -/
theorem Inv.rotate {s : Worm} (h : Inv env s) :
    Inv env { s with sink := WormAuditSink.rotate env s.sink s.directory } := by
  rw [WormAuditSink.rotate]
  split
  · exact h
  · next old hget =>
    split
    · have hc := h.numbered.length_of_some hget
      refine ⟨⟨h.numbered.numbers, .inl hc, h.numbered.few⟩, h.linked, h.content, ?_⟩
      rcases h.sync with hs | hlimit
      · exact .inl ⟨hs.linked, hs.lastHash, hs.pending, hs.survive⟩
      · simp [atLimit, OrderedMap.has, hget] at hlimit
    · exact h

theorem flush_inv {s : Worm} (h : Inv env s) (hfew : s.directory.entries.length < 1000000)
    (io : AppendOutcome) :
    Inv env (account { s with
      sink := (WormAuditSink.flush env io s.sink s.directory).1
      directory := (WormAuditSink.flush env io s.sink s.directory).2.1 }
      (WormAuditSink.flush env io s.sink s.directory).2.2) := by
  rw [WormAuditSink.flush]
  split
  · exact h
  have hr := h.rotate
  generalize WormAuditSink.rotate env s.sink s.directory = sink at hr ⊢
  dsimp only
  split
  · next hlimit => exact ⟨hr.numbered, hr.linked, hr.content, .inr hlimit⟩
  next hlimit =>
  have hs : Synced env { s with sink } := hr.sync.resolve_right hlimit
  cases io with
  | done =>
    obtain ⟨hnumbered, hlines⟩ := hr.numbered.set hfew (sink.buffer.map stored)
    simp only [account]
    refine ⟨hnumbered, ?_, ?_, .inl ⟨?_, ?_, ?_, ?_⟩⟩
    · rw [hlines]
      exact hs.linked_append hr
    · rw [hlines]
      exact hs.content_append hr
    · trivial
    · rw [hlines]
      exact hs.lastHash_append
    · rfl
    · exact List.forall_mem_nil _
  | failed created =>
    simp only [account]
    split
    · obtain ⟨hnumbered, hlines⟩ := hr.numbered.set hfew []
      simp only [List.append_nil] at hnumbered hlines
      refine ⟨hnumbered, ?_, ?_, .inl ⟨?_, ?_, hs.pending, hs.survive⟩⟩
      · rw [hlines]
        exact hr.linked
      · rw [hlines]
        exact hr.content
      · rw [hlines]
        exact hs.linked
      · rw [hlines]
        exact hs.lastHash
    · exact hr

/-- The event joins the buffer and the accepted events. -/
def accept (env : WormEnv) (s : Worm) (event : AuditEvent) : Worm :=
  let sealed := event.sealed env.crypto env.hmacKey s.sink.lastHash
  { s with
    sink := { s.sink with
      lastHash := sealed.chainHash
      buffer := s.sink.buffer ++ [sealed]
      writeCount := s.sink.writeCount + 1 }
    pending := s.pending ++ [event] }

theorem accept_inv {s : Worm} {event : AuditEvent} (h : Inv env s) (he : event.SurvivesStorage) :
    Inv env (accept env s event) := by
  refine ⟨h.numbered, h.linked, h.content, h.sync.imp_left fun hs => ⟨?_, ?_, ?_, ?_⟩⟩
  · refine HashChain.linked_append.mpr ⟨hs.linked, ?_, trivial⟩
    exact congrArg (chainHashOf env.crypto env.hmacKey · event) hs.lastHash
  · rw [accept, lastTag_append]
    rfl
  · simp [accept, hs.pending, sealed, untagged]
  · refine List.forall_mem_append.mpr ⟨hs.survive, List.forall_mem_singleton.mpr ?_⟩
    exact survivesStorage_sealed he

theorem lastTag_eq_of_getLast? {p : String} {es : List AuditEvent} {e : AuditEvent}
    (h : es.getLast? = some e) : lastTag chainHash p es = e.chainHash := by
  obtain ⟨front, rfl⟩ := List.getLast?_eq_some_iff.mp h
  rw [lastTag_append]
  rfl

/-- A buffer that continues the lines on disk passes the check of its own last hash. -/
theorem Synced.not_violatesChain {s : Worm} (hs : Synced env s) (event : AuditEvent) :
    violatesChain env event s.sink = false := by
  rw [violatesChain]
  split
  · rfl
  · next prevEvent hlast =>
    have hhash : s.sink.lastHash = prevEvent.chainHash := by
      rw [hs.lastHash, lastTag_eq_of_getLast? hlast]
    simp [sealed, hhash]

theorem write_inv {s : Worm} {event : AuditEvent} (h : Inv env s) (he : event.SurvivesStorage)
    (hfew : s.directory.entries.length < 1000000) (io : AppendOutcome) :
    Inv env (step env s (.write event io)) := by
  rw [step, WormAuditSink.write]
  by_cases hviolates : violatesChain env event s.sink = true
  · -- only a sink at its limit may have lost the events before the buffer
    simp only [hviolates, if_true]
    refine ⟨h.numbered, h.linked, h.content, .inr (h.sync.resolve_left fun hs => ?_)⟩
    rw [hs.not_violatesChain] at hviolates
    exact Bool.false_ne_true hviolates
  · have haccept := accept_inv h he
    by_cases hfull : flushSize ≤ (accept env s event).sink.buffer.length
    · have hflush := flush_inv haccept hfew io
      simp only [accept] at hfull hflush
      simpa only [hviolates, hfull, if_true, if_false, Bool.false_eq_true] using hflush
    · simp only [accept] at hfull haccept
      simpa only [hviolates, hfull, if_false, Bool.false_eq_true] using haccept

theorem restoreLastHash_eq {p : String} {es : List AuditEvent} (h : ∀ e ∈ es, e.chainHash ≠ "") :
    restoreLastHash p es = lastTag chainHash p es := by
  rcases List.eq_nil_or_concat es with rfl | ⟨front, e, rfl⟩
  · rfl
  · have hlast := h e (by simp)
    simp [restoreLastHash, lastTag_append, hlast]

theorem reopen_inv {s : Worm} (h : Inv env s) (hnewest : ¬NewestEmpty env s)
    (config : WormAuditSinkConfig) : Inv env (step env s (.reopen config)) := by
  have hread : readSegments env s.directory = s.directory.entries := readSegments_eq h.numbered
  rw [NewestEmpty, storedLines, hread] at hnewest
  rw [step, create, hread]
  dsimp only
  rcases List.eq_nil_or_concat s.directory.entries with hnil | ⟨front, latest, hfront⟩
  · have hlines : lines s.directory = [] := by rw [lines, hnil]; rfl
    rw [hnil]
    refine ⟨⟨h.numbered.numbers, .inl ?_, h.numbered.few⟩, h.linked, h.content,
      .inl ⟨trivial, ?_, rfl, List.forall_mem_nil _⟩⟩
    · rw [hnil]
      rfl
    · rw [hlines]
      rfl
  · rw [List.concat_eq_append] at hfront
    have hlines : lines s.directory = front.flatMap Prod.snd ++ latest.2 := by
      simp [lines, hfront]
    have hlast : s.directory.entries.getLast? = some latest := by simp [hfront]
    have hnumber : latest.1 + 1 = s.directory.entries.length := by
      have hnumbers := h.numbered.numbers
      rw [hfront, List.length_append, List.length_singleton, List.range_succ,
        List.map_append] at hnumbers
      have hlatest := List.append_inj_right' hnumbers rfl
      rw [hfront, List.length_append, List.length_singleton]
      simpa using hlatest
    rw [hlast]
    refine ⟨⟨h.numbered.numbers, .inr hnumber, h.numbered.few⟩, h.linked, h.content,
      .inl ⟨trivial, ?_, rfl, List.forall_mem_nil _⟩⟩
    have htagged := h.linked.chainHash_ne_empty
    rw [hlines] at htagged ⊢
    refine (restoreLastHash_eq fun e he => htagged e (List.mem_append_right _ he)).trans ?_
    rw [lastTag_nil, lastTag_append]
    by_cases hempty : latest.2 = []
    · -- an empty newest segment after none but empty ones
      have hall : lines s.directory = [] := by
        by_contra hne
        refine hnewest ⟨⟨latest.1, ?_⟩, hne⟩
        rw [hlast, ← hempty]
      rw [hlines, List.append_eq_nil_iff] at hall
      rw [hall.1]
      rfl
    · obtain ⟨e, he⟩ := Option.isSome_iff_exists.mp (List.getLast?_isSome.mpr hempty)
      rw [lastTag_eq_of_getLast? he, lastTag_eq_of_getLast? he]

theorem step_inv {s : Worm} {i : WormInput} (h : Inv env s) (hi : Sound env s i) :
    Inv env (step env s i) := by
  cases i with
  | write event io => exact write_inv h hi.1 hi.2 io
  | flush io => exact flush_inv h hi io
  | reopen config => exact reopen_inv h hi config

theorem init_inv (config : WormAuditSinkConfig) : Inv env (init env config) := by
  have hbuffer : (init env config).sink.buffer = [] := rfl
  refine ⟨⟨rfl, .inl rfl, Nat.zero_le _⟩, trivial, rfl, .inl ⟨?_, rfl, rfl, ?_⟩⟩
  · rw [hbuffer]
    trivial
  · rw [hbuffer]
    exact List.forall_mem_nil _

/-- Within the bounds of its format the log replays in every state of a run, and its lines are the
flushed events. -/
theorem worm_intact (env : WormEnv) (config : WormAuditSinkConfig) (inputs : List WormInput)
    (h : Run.AllSteps (step env) (Sound env) (init env config) inputs) :
    Run.AllStates (step env) (Intact env) (init env config) inputs :=
  (Run.allStates_of_invariant (fun _ _ hs hi => step_inv hs hi) (init_inv config) h).mono
    fun _ hs => hs.intact

def transparentEnv : WormEnv := { crypto := transparent, lineBytes := fun _ => 1 }

/-- A rotation, a failure and a restart, with the segments never empty. -/
theorem worm_intact_run : Run.AllStates (step transparentEnv) (Intact transparentEnv)
    (init transparentEnv { maxSegmentBytes := 1 })
    [.write blankEvent .done, .flush .done, .write blankEvent .done, .flush (.failed false),
      .flush .done, .reopen {}, .write blankEvent .done, .flush .done] := by
  have hnewest : ((readSegments transparentEnv (Run.run (step transparentEnv)
      (init transparentEnv { maxSegmentBytes := 1 })
      [.write blankEvent .done, .flush .done, .write blankEvent .done, .flush (.failed false),
        .flush .done]).directory).getLast?.map fun s => s.2.length) = some 1 := by
    decide
  refine worm_intact transparentEnv { maxSegmentBytes := 1 } _
    ⟨⟨blankEvent_survives, ?_⟩, ?_, ⟨blankEvent_survives, ?_⟩, ?_, ?_, ?_,
      ⟨blankEvent_survives, ?_⟩, ?_, trivial⟩
  case refine_6 =>
    rintro ⟨⟨n, hn⟩, -⟩
    have hlength := hnewest.symm.trans (congrArg (Option.map fun s => s.2.length) hn)
    exact absurd (Option.some.inj hlength) Nat.one_ne_zero
  all_goals exact Nat.lt_of_lt_of_le (by decide : _ < 3) (by decide)

/-- A failed append leaves an empty second segment, and a restart on it begins a new chain. -/
theorem worm_broken_after_restart :
    ¬∀ (env : WormEnv) (config : WormAuditSinkConfig) (inputs : List WormInput),
      Run.AllStates (step env) (Intact env) (init env config) inputs := by
  intro h
  have hlast := (h transparentEnv { maxSegmentBytes := 1 }
    [.write blankEvent .done, .flush .done, .write blankEvent .done, .flush (.failed true),
      .reopen {}, .write blankEvent .done, .flush .done]).last
  have hbroken : verifyIntegrity transparentEnv (Run.run (step transparentEnv)
    (init transparentEnv { maxSegmentBytes := 1 })
    [.write blankEvent .done, .flush .done, .write blankEvent .done, .flush (.failed true),
      .reopen {}, .write blankEvent .done, .flush .done]).directory = false := by
    decide
  rw [hlast.verified] at hbroken
  exact absurd hbroken (by decide)

end KirkForge.Worm
