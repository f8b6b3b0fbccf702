import KirkForge.Orchestrator.EventLog
import KirkForge.Theory.Run

/-!
# The integrity of the event log

Whatever the order of appends, failures and restarts, the file holds a record for each event that
was appended, in order, and `verifyLog` accepts it.
-/

namespace KirkForge

open JsValue

variable {env : EventLogEnv} {key : String}

namespace EventLogger

/-! ### Records -/

/-- The keys that the logger sets itself. -/
def isReserved (k : String) : Bool := k = "_logged" || k = "_prev" || k = "_seq"

/-- What a record says of the event. -/
def eventFields : Json → List (String × Json)
  | .obj fields => fields.filter fun field => !isReserved field.1
  | _ => []

/-- The record of an entry. -/
def record (event : LoggedEvent) (now : String) (prevHash : Option String) (n : Nat) : Json :=
  .obj (membersToJson (entry event now prevHash n))

theorem toJson_nullable (s : Option String) :
    toJson (nullable s) = some (s.elim .null .str) := by
  cases s <;> rfl

variable (event : LoggedEvent) (now : String) (prevHash : Option String) (n : Nat)

theorem wellFormed_record : (record event now prevHash n).WellFormed := by
  have hlogged : (event.members.set "_logged" (string now)).WellFormed :=
    event.wellFormed.set (j := .str now) rfl trivial
  have hprev :
      ((event.members.set "_logged" (string now)).set "_prev" (nullable prevHash)).WellFormed :=
    hlogged.set (toJson_nullable prevHash) (by cases prevHash <;> trivial)
  exact (hprev.set (j := .num n) rfl (JsNumber.isDecimal_natCast n)).json

theorem parse_entryLine :
    Json.parse (entryLine event now prevHash n) = some (record event now prevHash n) :=
  Json.parse_stringify (wellFormed_record event now prevHash n)

theorem isLine_entryLine (seq : ℚ) : Text.IsLine (entryLine event now prevHash seq) where
  oneLine := by
    rw [entryLine, String.toList_ofList]
    exact Json.newline_notMem_stringify _
  ending := by
    rw [entryLine, String.toList_ofList, stringify]
    exact ⟨_, '\x7d', rfl, by decide⟩

theorem get?_record_seq : (record event now prevHash n).get? "_seq" = some (.num n) := by
  rw [record, Json.get?, entry, JsMembers.lookup_toJson_set rfl, if_pos rfl]

theorem get?_record_prev :
    (record event now prevHash n).get? "_prev" = some (prevHash.elim .null .str) := by
  rw [record, Json.get?, entry, JsMembers.lookup_toJson_set rfl, if_neg (by decide),
    JsMembers.lookup_toJson_set (toJson_nullable prevHash), if_pos rfl]

/-- A record keeps of the event what JSON keeps of it, in the same order. -/
theorem eventFields_record :
    eventFields (record event now prevHash n) =
      eventFields (.obj (membersToJson event.members)) := by
  have hset {k : String} {v : JsValue} {j : Json} (hk : isReserved k = true)
      (hv : toJson v = some j) (members : JsMembers) :=
    JsMembers.filter_toJson_set (p := fun k => !isReserved k) (by simp [hk] : (!isReserved k) = false)
      hv members
  rw [record, eventFields, entry, hset rfl rfl, hset rfl (toJson_nullable prevHash), hset rfl rfl,
    eventFields]

/-- An append writes the next line, or the logger stands where it stood. -/
theorem append_cases (env : EventLogEnv) (key : String) (event : LoggedEvent) (now : String)
    (calls : AppendCalls) (logger : EventLogger) (file : Option String) {r}
    (hr : logger.append env key event now calls file = r) :
    (∃ line, line = entryLine event now logger.prevHash logger.seq ∧ r.2.2 = true ∧
      r.1.seq = logger.seq + 1 ∧ r.1.prevHash = some (env.hmac key line) ∧
      r.2.1 = some (file.getD "" ++ (line ++ "\n"))) ∨
    (r.2.2 = false ∧ r.1.seq = logger.seq ∧ r.1.prevHash = logger.prevHash ∧
      (r.2.1 = some (file.getD "") ∨ r.2.1 = file ∧ (r.1.fd = true → logger.fd = true))) := by
  subst hr
  have hopened : (if logger.fd then file else some (file.getD "")).getD "" = file.getD "" := by
    split <;> rfl
  have hfile {fd : Bool} : (if logger.fd then file else some (file.getD "")) = some (file.getD "") ∨
      (if logger.fd then file else some (file.getD "")) = file ∧ (fd = true → logger.fd = true) := by
    split
    · next hfd => exact .inr ⟨rfl, fun _ => hfd⟩
    · exact .inl rfl
  rw [append]
  split
  · exact .inr ⟨rfl, rfl, rfl, .inr ⟨rfl, id⟩⟩
  dsimp only
  split
  · exact .inr ⟨rfl, rfl, rfl, hfile⟩
  split
  · exact .inr ⟨rfl, rfl, rfl, hfile⟩
  · exact .inl ⟨_, rfl, rfl, rfl, rfl, by rw [hopened]⟩

/-! ### Chains of lines -/

/-- Every line is a record of the hash of the line before it, the first one of `prevHash`. -/
def Linked (env : EventLogEnv) (key : String) : Option String → List String → Prop
  | _, [] => True
  | prevHash, line :: lines =>
    (∃ entry, Json.parse line = some entry ∧
      entry.get? "_prev" = some (prevHash.elim .null .str)) ∧
    Linked env key (some (env.hmac key line)) lines

/-- The hash of the last line, `prevHash` if there is none. -/
def lastHash (env : EventLogEnv) (key : String) (prevHash : Option String) :
    List String → Option String
  | [] => prevHash
  | line :: lines => lastHash env key (some (env.hmac key line)) lines

theorem lastHash_concat (prevHash : Option String) (lines : List String) (line : String) :
    lastHash env key prevHash (lines ++ [line]) = some (env.hmac key line) := by
  induction lines generalizing prevHash with
  | nil => rfl
  | cons l lines ih => exact ih _

theorem linked_append (prevHash : Option String) (lines rest : List String) :
    Linked env key prevHash (lines ++ rest) ↔
      Linked env key prevHash lines ∧ Linked env key (lastHash env key prevHash lines) rest := by
  induction lines generalizing prevHash with
  | nil => simp [Linked, lastHash]
  | cons l lines ih => simp only [List.cons_append, Linked, lastHash, ih, and_assoc]

/-- The loop of `verifyLog` goes through exactly the linked lines. -/
theorem verifyLines_valid_iff (total i : Nat) (prevHash : Option String) (lines : List String) :
    (verifyLines env key total i prevHash lines).valid = true ↔ Linked env key prevHash lines := by
  induction lines generalizing i prevHash with
  | nil => exact iff_of_true rfl trivial
  | cons line lines ih =>
    rw [verifyLines, Linked]
    cases hparse : Json.parse line with
    | none => simp
    | some entry =>
      simp only [Option.some.injEq, exists_eq_left']
      cases hprev : entry.get? "_prev" with
      | none => simp
      | some prev =>
        cases prev <;> cases prevHash <;> simp [ih]
        split <;> simp [*]

theorem verifyLines_of_linked (total i : Nat) {prevHash : Option String} {lines : List String}
    (h : Linked env key prevHash lines) :
    verifyLines env key total i prevHash lines = ⟨true, none, total⟩ := by
  induction lines generalizing i prevHash with
  | nil => rfl
  | cons line lines ih =>
    obtain ⟨⟨entry, hparse, hprev⟩, hlines⟩ := h
    rw [verifyLines, hparse]
    cases prevHash <;> simp [hprev, ih _ hlines]

theorem secret_ne_empty {hmacSecret : String} (h : secret env hmacSecret = some key) :
    key ≠ "" := by
  rw [secret] at h
  split at h
  · next hne => exact Option.some.inj h ▸ hne
  · simpa using (Option.filter_eq_some_iff.mp h).2

/-- With a secret of its own, `verifyLog` checks the lines of the file. -/
theorem verifyLog_of_ne (h : key ≠ "") (content : String) :
    verifyLog env (some key) (some content) =
      verifyLines env key (Text.trimmedLines content).length 0 none (Text.trimmedLines content) := by
  have hkey : (some key).filter (· ≠ "") = some key := Option.filter_eq_some_iff.mpr ⟨rfl, by simpa⟩
  rw [verifyLog, Option.some_or, hkey]

/-- The lines of the events that are appended after `n` others, of which the last has the hash
`prevHash`. -/
def logLines (env : EventLogEnv) (key : String) :
    Option String → Nat → List (LoggedEvent × String) → List String
  | _, _, [] => []
  | prevHash, n, (event, now) :: rest =>
    let line := entryLine event now prevHash n
    line :: logLines env key (some (env.hmac key line)) (n + 1) rest

theorem logLines_concat (prevHash : Option String) (n : Nat)
    (appended : List (LoggedEvent × String)) (event : LoggedEvent) (now : String) :
    logLines env key prevHash n (appended ++ [(event, now)]) =
      logLines env key prevHash n appended ++
        [entryLine event now (lastHash env key prevHash (logLines env key prevHash n appended))
          (n + appended.length : Nat)] := by
  induction appended generalizing prevHash n with
  | nil => rfl
  | cons e appended ih =>
    obtain ⟨event', now'⟩ := e
    simp only [List.cons_append, logLines, ih, lastHash, List.length_cons, Nat.add_assoc,
      Nat.add_comm 1]

theorem length_logLines (prevHash : Option String) (n : Nat)
    (appended : List (LoggedEvent × String)) :
    (logLines env key prevHash n appended).length = appended.length := by
  induction appended generalizing prevHash n with
  | nil => rfl
  | cons e appended ih => rw [logLines, List.length_cons, List.length_cons, ih]

theorem linked_logLines (prevHash : Option String) (n : Nat)
    (appended : List (LoggedEvent × String)) :
    Linked env key prevHash (logLines env key prevHash n appended) := by
  induction appended generalizing prevHash n with
  | nil => trivial
  | cons e appended ih =>
    obtain ⟨event, now⟩ := e
    exact ⟨⟨_, parse_entryLine event now prevHash n, get?_record_prev event now prevHash n⟩, ih _ _⟩

theorem isLine_logLines (prevHash : Option String) (n : Nat)
    (appended : List (LoggedEvent × String)) :
    ∀ line ∈ logLines env key prevHash n appended, Text.IsLine line := by
  induction appended generalizing prevHash n with
  | nil => exact List.forall_mem_nil _
  | cons e appended ih =>
    obtain ⟨event, now⟩ := e
    exact List.forall_mem_cons.mpr ⟨isLine_entryLine event now prevHash n, ih _ _⟩

/-- The records of the log. -/
theorem exists_records (prevHash : Option String) (n : Nat)
    (appended : List (LoggedEvent × String)) :
    ∃ records : List Json,
      (logLines env key prevHash n appended).map Json.parse = records.map some ∧
      records.map (Json.get? "_seq") =
        (List.range' n appended.length).map (fun i => some (.num i)) ∧
      records.map eventFields =
        appended.map fun e => eventFields (.obj (membersToJson e.1.members)) := by
  induction appended generalizing prevHash n with
  | nil => exact ⟨[], rfl, rfl, rfl⟩
  | cons e appended ih =>
    obtain ⟨event, now⟩ := e
    obtain ⟨records, hparse, hseq, hevents⟩ :=
      ih (some (env.hmac key (entryLine event now prevHash n))) (n + 1)
    refine ⟨record event now prevHash n :: records, ?_, ?_, ?_⟩
    · rw [logLines, List.map_cons, List.map_cons, parse_entryLine, hparse]
    · rw [List.map_cons, get?_record_seq, hseq]
      rfl
    · rw [List.map_cons, List.map_cons, eventFields_record, hevents]

end EventLogger

namespace LogState

open EventLogger

variable (env key)

/-- The lines that were written to the log. -/
def lines (s : LogState) : List String := logLines env key none 0 s.appended

/-- The logger knows where the file ends, and the file holds the lines that were written. -/
structure Sound (s : LogState) : Prop where
  seq : s.logger.seq = s.appended.length
  prevHash : s.logger.prevHash = lastHash env key none (s.lines env key)
  file : s.file = some (Text.unlines (s.lines env key)) ∨
    (s.file = none ∧ s.logger.fd = false ∧ s.appended = [])

variable {env key} {s : LogState}

theorem isLine_lines (s : LogState) : ∀ line ∈ s.lines env key, Text.IsLine line :=
  isLine_logLines none 0 s.appended

/-- A logger goes by the record in the last line of the file that it is made on. -/
theorem recoverChain_of_getLast? {content : String} {event : LoggedEvent} {now : String}
    {prevHash : Option String} {n : Nat}
    (h : (Text.trimmedLines content).getLast? = some (entryLine event now prevHash n)) :
    recoverChain env key (some content) =
      { seq := n + 1, prevHash := some (env.hmac key (entryLine event now prevHash n)) } := by
  have hne : entryLine event now prevHash n ≠ "" := by
    obtain ⟨cs, c, hcs, -⟩ := (isLine_entryLine event now prevHash n).ending
    intro h
    rw [h] at hcs
    exact List.append_ne_nil_of_right_ne_nil cs (List.cons_ne_nil c []) hcs.symm
  have hseq := get?_record_seq event now prevHash n
  rw [recoverChain, h]
  simp only [if_neg hne, parse_entryLine]
  rw [record] at hseq ⊢
  simp [hseq]

/-- A logger that is made again on its file stands where the one before it stood. -/
theorem recoverChain_unlines (appended : List (LoggedEvent × String)) :
    recoverChain env key (some (Text.unlines (logLines env key none 0 appended))) =
      { seq := appended.length
        prevHash := lastHash env key none (logLines env key none 0 appended) } := by
  rcases List.eq_nil_or_concat appended with rfl | ⟨appended, ⟨event, now⟩, rfl⟩
  · rfl
  have hlast : (Text.trimmedLines
      (Text.unlines (logLines env key none 0 (appended ++ [(event, now)])))).getLast? =
        some (entryLine event now
          (lastHash env key none (logLines env key none 0 appended)) appended.length) := by
    rw [Text.trimmedLines_unlines (isLine_logLines none 0 _), logLines_concat, Nat.zero_add,
      List.getLast?_concat]
  rw [List.concat_eq_append, recoverChain_of_getLast? hlast, logLines_concat, Nat.zero_add,
    lastHash_concat, List.length_append, List.length_singleton, Nat.cast_succ]

/-- An append writes nothing, or the next line. -/
theorem Sound.append (h : s.Sound env key) (event : LoggedEvent) (now : String)
    (calls : AppendCalls) : (s.step env key (.emit event now calls)).Sound env key := by
  have hopened : some (s.file.getD "") = some (Text.unlines (s.lines env key)) := by
    rcases h.file with hsome | ⟨hnone, -, happended⟩
    · rw [hsome, Option.getD_some]
    · rw [hnone, lines, happended]
      rfl
  rw [LogState.step]
  split
  · generalize hr : s.logger.append env key event now calls s.file = r
    dsimp only
    rcases append_cases env key event now calls s.logger s.file hr with
      ⟨line, hline, hwritten, hseq, hprev, hfile⟩ | ⟨hfailed, hseq, hprev, hfile⟩
    · have hlines : logLines env key none 0 (s.appended ++ [(event, now)]) =
          s.lines env key ++ [line] := by
        rw [logLines_concat, Nat.zero_add, hline, h.prevHash, h.seq, lines]
      rw [if_pos hwritten]
      refine ⟨?_, ?_, .inl ?_⟩
      · rw [hseq, h.seq, List.length_append]
        exact (Nat.cast_succ _).symm
      · rw [hprev, lines, hlines, lastHash_concat]
      · show r.2.1 = some (Text.unlines (logLines env key none 0 (s.appended ++ [(event, now)])))
        rw [hfile, Option.some.inj hopened, hlines, Text.unlines_concat]
    · rw [if_neg (Bool.not_eq_true _ ▸ hfailed)]
      refine ⟨hseq.trans h.seq, hprev.trans h.prevHash, ?_⟩
      rcases hfile with hfile | ⟨hfile, hfd⟩
      · exact .inl (hfile.trans hopened)
      · refine h.file.imp (fun hsome => hfile.trans hsome) fun hnone => ?_
        exact ⟨hfile.trans hnone.1, Bool.eq_false_iff.mpr fun hopen =>
          Bool.eq_false_iff.mp hnone.2.1 (hfd hopen), hnone.2.2⟩
  · exact h

theorem Sound.step (h : s.Sound env key) (i : LogInput) : (s.step env key i).Sound env key := by
  cases i with
  | emit event now calls => exact h.append event now calls
  | close =>
    exact ⟨h.seq, h.prevHash, h.file.imp_right fun hnone => ⟨hnone.1, rfl, hnone.2.2⟩⟩
  | restart =>
    rw [LogState.step]
    rcases h.file with hsome | ⟨hnone, -, happended⟩
    · rw [hsome, lines, recoverChain_unlines]
      exact ⟨rfl, rfl, .inl rfl⟩
    · rw [hnone]
      exact ⟨by rw [happended]; rfl, by rw [lines, happended]; rfl, .inr ⟨rfl, rfl, happended⟩⟩

theorem sound_init : (init env key).Sound env key := ⟨by rfl, rfl, .inr ⟨rfl, rfl, rfl⟩⟩

theorem sound_of_run (inputs : List LogInput) :
    Run.AllStates (LogState.step env key) (Sound env key) (init env key) inputs :=
  Run.allStates_of_forall (fun _ i h => h.step i) sound_init

end LogState

/-- Throughout every run of a logger on a path without a file, with failed appends, closes and
restarts, `verifyLog` accepts the file, and its records have the numbers 0, 1, … and the events
that were appended, in order. -/
theorem eventLog_valid {hmacSecret : String} (hkey : EventLogger.secret env hmacSecret = some key)
    (inputs : List LogInput) :
    Run.AllStates (LogState.step env key)
      (fun s => ∀ content, s.file = some content →
        EventLogger.verifyLog env (some key) (some content) = ⟨true, none, s.appended.length⟩ ∧
        ∃ records : List Json,
          (Text.lines content).map Json.parse = records.map some ∧
          records.map (Json.get? "_seq") =
            (List.range s.appended.length).map (fun i => some (.num i)) ∧
          records.map EventLogger.eventFields =
            s.appended.map fun e => EventLogger.eventFields (.obj (membersToJson e.1.members)))
      (LogState.init env key) inputs := by
  refine (LogState.sound_of_run inputs).mono fun s h content hcontent => ?_
  have htext : content = Text.unlines (s.lines env key) := by
    rcases h.file with hsome | ⟨hnone, -⟩
    · exact Option.some.inj (hcontent.symm.trans hsome)
    · exact nomatch hcontent.symm.trans hnone
  subst htext
  rw [Text.lines_unlines s.isLine_lines, List.range_eq_range']
  refine ⟨?_, EventLogger.exists_records none 0 s.appended⟩
  have hlinked : EventLogger.Linked env key none (s.lines env key) :=
    EventLogger.linked_logLines none 0 s.appended
  rw [EventLogger.verifyLog_of_ne (EventLogger.secret_ne_empty hkey),
    Text.trimmedLines_unlines s.isLine_lines, EventLogger.verifyLines_of_linked _ _ hlinked,
    LogState.lines, EventLogger.length_logLines]

/-- An event of a kind, with nothing else in it. -/
def bareEvent (kind : String) : LoggedEvent where
  members := .cons "kind" (string kind) .nil
  wellFormed := ⟨List.nodup_singleton "kind", trivial, trivial⟩

/-- Two events are logged, with a write that fails in between. -/
def twoEvents : List LogInput :=
  [.restart, .emit (bareEvent "verify.lint") "t0" {}, .close,
    .emit (bareEvent "state.graph") "t1" { writes := false },
    .emit (bareEvent "state.graph") "t2" {}]

/-- The log of `twoEvents`, where the hash is the secret followed by the text. -/
def twoEventsLog : LogState :=
  Run.run (LogState.step ⟨String.append, none⟩ "secret")
    (LogState.init ⟨String.append, none⟩ "secret") twoEvents

theorem eventLog_valid_twoEvents : ∃ content, twoEventsLog.file = some content ∧
    EventLogger.verifyLog ⟨String.append, none⟩ (some "secret") (some content) = ⟨true, none, 2⟩ :=
  have hkey : EventLogger.secret ⟨String.append, none⟩ "secret" = some "secret" := by decide
  ⟨_, rfl, ((eventLog_valid hkey twoEvents).last _ rfl).1⟩

end KirkForge

/-!
## Tampering with the event log

A line vouches for the line before it, and none vouches for the last one. As long as each logger
finds the last line of the log at the end of the file when it is made, a file that `verifyLog`
accepts is therefore a beginning of the log but for its last line, for which any record will do that
names the hash of the line before it, and but for white space after it.
-/

namespace KirkForge

open JsValue EventLogger

variable {env : EventLogEnv} {key : String}

namespace EventLogger

/-- The record `y` names the hash of the line `x`. -/
def Follows (env : EventLogEnv) (key : String) (x y : String) : Prop :=
  ∃ entry, Json.parse y = some entry ∧ entry.get? "_prev" = some (.str (env.hmac key x))

/-- Nobody without the secret can make the hash of a line that no logger has signed: where a line of
the file names the hash of the line before it, this one has been signed. And no two of the signed
lines have the same hash. -/
structure Unforged (env : EventLogEnv) (key : String) (signed : List String) (content : String) :
    Prop where
  published : ∀ x y, [x, y] <:+: Text.trimmedLines content → Follows env key x y → x ∈ signed
  collision : ∀ x ∈ signed, ∀ y ∈ signed, env.hmac key x = env.hmac key y → x = y

/-- The last line of the file, the `k`-th, is not the one of the log, but a record that names the
hash of the line before it as that one does. -/
def Replaced (env : EventLogEnv) (key : String) (log : List String) (content : String) : Prop :=
  ∃ k line, Text.trimmedLines content = log.take k ++ [line] ∧ k ≤ log.length ∧
    log[k]? ≠ some line ∧ ∃ entry, Json.parse line = some entry ∧
      entry.get? "_prev" = some ((lastHash env key none (log.take k)).elim .null .str)

/-- The file is a beginning of the log with more white space at the end than one newline. -/
def Padded (log : List String) (content : String) : Prop :=
  Text.trimmedLines content <+: log ∧ Text.lines content ≠ Text.trimmedLines content

/-! ### Where a line stands -/

/-- The member `_prev` tells the hash. -/
theorem elim_inj {h h' : Option String}
    (hj : h.elim Json.null Json.str = h'.elim Json.null Json.str) : h = h' := by
  cases h <;> cases h' <;> simp_all

/-- The lines of a log are distinct: each has its own number. -/
theorem nodup_logLines (prevHash : Option String) (n : Nat)
    (appended : List (LoggedEvent × String)) : (logLines env key prevHash n appended).Nodup := by
  obtain ⟨records, hparse, hseq, -⟩ :
      ∃ records : List Json, (logLines env key prevHash n appended).map Json.parse = _ ∧ _ :=
    exists_records prevHash n appended
  have hnumbers : (records.map (Json.get? "_seq")).Nodup := by
    rw [hseq]
    refine List.Nodup.map (fun i j hij => ?_) List.nodup_range'
    simpa using hij
  have hparsed : ((logLines env key prevHash n appended).map Json.parse).Nodup := by
    rw [hparse]
    exact List.Nodup.map (Option.some_injective Json) (List.Nodup.of_map _ hnumbers)
  exact List.Nodup.of_map _ hparsed

/-- The hash before a line says where in the log the line stands. -/
theorem eq_of_lastHash_eq {log front front' : List String} (hnodup : log.Nodup)
    (hcollision : ∀ x ∈ front.getLast?, ∀ y ∈ front'.getLast?,
      env.hmac key x = env.hmac key y → x = y)
    (hfront : front <+: log) (hfront' : front' <+: log)
    (h : lastHash env key none front = lastHash env key none front') : front = front' := by
  rcases List.eq_nil_or_concat front with rfl | ⟨xs, x, rfl⟩ <;>
    rcases List.eq_nil_or_concat front' with rfl | ⟨ys, y, rfl⟩
  · rfl
  · rw [List.concat_eq_append, lastHash_concat] at h
    exact nomatch h
  · rw [List.concat_eq_append, lastHash_concat] at h
    exact nomatch h
  · simp only [List.concat_eq_append] at hfront hfront' h hcollision ⊢
    rw [lastHash_concat, lastHash_concat, Option.some.injEq] at h
    obtain ⟨rest, rfl⟩ := hfront
    obtain ⟨rest', hrest'⟩ := hfront'
    obtain rfl : x = y := hcollision x List.getLast?_concat y List.getLast?_concat h
    rw [List.append_assoc, List.append_assoc, List.singleton_append, List.singleton_append]
      at hrest'
    rw [List.append_assoc, List.singleton_append, List.nodup_middle, List.nodup_cons,
      List.mem_append, not_or] at hnodup
    obtain ⟨⟨hxs, hxrest⟩, -⟩ := hnodup
    rw [((List.append_cons_inj_of_notMem hxs hxrest).mp hrest'.symm).1]

/-- In a linked file every line but the last one has been signed. -/
theorem mem_signed_of_linked {signed front rest : List String} {x line : String}
    (hpublished : ∀ y z, [y, z] <:+: front ++ x :: line :: rest → Follows env key y z → y ∈ signed)
    (h : Linked env key none (front ++ x :: line :: rest)) : x ∈ signed := by
  obtain ⟨-, -, hline, -⟩ := (linked_append none front _).mp h
  exact hpublished x line ⟨front, rest, by simp⟩ hline

/-- All lines of a linked file but the last are a beginning of the log. -/
theorem prefix_of_linked {log : List String} (hlog : Linked env key none log) (hnodup : log.Nodup)
    (hcollision : ∀ x ∈ log.dropLast, ∀ y ∈ log.dropLast, env.hmac key x = env.hmac key y → x = y)
    {front : List String} {line : String}
    (hpublished : ∀ x y, [x, y] <:+: front ++ [line] → Follows env key x y → x ∈ log.dropLast)
    (h : Linked env key none (front ++ [line])) : front <+: log := by
  induction front using List.reverseRecOn generalizing line with
  | nil => exact List.nil_prefix
  | append_singleton front x ih =>
    rw [List.append_assoc, List.singleton_append] at hpublished h
    have hfront : Linked env key none (front ++ [x]) := by
      rw [← List.singleton_append, ← List.append_assoc] at h
      exact ((linked_append none (front ++ [x]) [line]).mp h).1
    have hpublished' : ∀ y z, [y, z] <:+: front ++ [x] → Follows env key y z →
        y ∈ log.dropLast := fun y z hyz =>
      hpublished y z (hyz.trans ⟨[], [line], by simp⟩)
    have hbefore : front <+: log := ih hpublished' hfront
    have hx : x ∈ log.dropLast := mem_signed_of_linked hpublished h
    -- the line names the hash of what stands before it, in the file and in the log
    obtain ⟨front', rest, hsplit⟩ := List.append_of_mem hx
    have hfront' : front' ++ [x] <+: log :=
      List.IsPrefix.trans ⟨rest, by simp [hsplit]⟩ (List.dropLast_prefix log)
    obtain ⟨-, ⟨entry, hparse, hprev⟩, -⟩ := (linked_append none front [x]).mp hfront
    obtain ⟨after, rfl⟩ := hfront'
    obtain ⟨-, ⟨entry', hparse', hprev'⟩, -⟩ :=
      (linked_append none front' [x]).mp ((linked_append none (front' ++ [x]) after).mp hlog).1
    obtain rfl : entry = entry' := Option.some.inj (hparse.symm.trans hparse')
    have hhash : lastHash env key none front = lastHash env key none front' := by
      rw [hprev, Option.some.injEq] at hprev'
      exact elim_inj hprev'
    have hsigned : ∀ y ∈ front.getLast?, y ∈ (front' ++ [x] ++ after).dropLast := by
      intro y hy
      obtain ⟨front, rfl⟩ := List.getLast?_eq_some_iff.mp hy
      rw [List.append_assoc, List.singleton_append] at hpublished' hfront
      exact mem_signed_of_linked hpublished' hfront
    have hsigned' : ∀ y ∈ front'.getLast?, y ∈ (front' ++ [x] ++ after).dropLast := by
      intro y hy
      rw [hsplit]
      exact List.mem_append_left _ (List.mem_of_getLast? hy)
    obtain rfl := eq_of_lastHash_eq hnodup
      (fun y hy z hz => hcollision y (hsigned y hy) z (hsigned' z hz)) hbefore
      ⟨[x] ++ after, by simp⟩ hhash
    exact List.prefix_append _ _

/-! ### What `verifyLog` accepts -/

variable {log : List String} {content : String}

theorem valid_iff_linked (hkey : key ≠ "") (content : String) :
    (verifyLog env (some key) (some content)).valid = true ↔
      Linked env key none (Text.trimmedLines content) := by
  rw [verifyLog_of_ne hkey, verifyLines_valid_iff]

theorem Linked.of_prefix {lines : List String} (hlog : Linked env key none log)
    (h : lines <+: log) : Linked env key none lines := by
  obtain ⟨rest, rfl⟩ := h
  exact ((linked_append none lines rest).mp hlog).1

theorem trimmedLines_eq_lines_of_take (hlines : ∀ line ∈ log, Text.IsLine line)
    (h : Text.lines content <+: log) : Text.trimmedLines content = Text.lines content :=
  Text.trimmedLines_eq_lines fun line hline => hlines line (h.subset hline)

theorem Replaced.linked (hlog : Linked env key none log) (h : Replaced env key log content) :
    Linked env key none (Text.trimmedLines content) := by
  obtain ⟨k, line, htext, -, -, hline⟩ := h
  rw [htext, linked_append]
  exact ⟨hlog.of_prefix (List.take_prefix k log), hline, trivial⟩

theorem getElem?_take_concat {k : Nat} (hk : k ≤ log.length) (line : String) (rest : List String) :
    (log.take k ++ [line] ++ rest)[k]? = some line := by
  rw [List.append_assoc, List.getElem?_append_right (List.length_take_le k log),
    List.length_take_of_le hk, Nat.sub_self]
  rfl

theorem Replaced.not_prefix (hlines : ∀ line ∈ log, Text.IsLine line)
    (h : Replaced env key log content) : ¬Text.lines content <+: log := by
  obtain ⟨k, line, htext, hk, hne, -⟩ := h
  intro hpre
  rw [← trimmedLines_eq_lines_of_take hlines hpre, htext] at hpre
  obtain ⟨rest, hrest⟩ := hpre
  refine hne ?_
  rw [← hrest, getElem?_take_concat hk]

/-- A file that is not a beginning of the log is accepted exactly if its last line has been replaced
or white space has been added to it. -/
theorem valid_prefix_iff (hkey : key ≠ "") (hlog : Linked env key none log)
    (hlines : ∀ line ∈ log, Text.IsLine line) (hnodup : log.Nodup)
    (hforged : Unforged env key log.dropLast content) :
    ((verifyLog env (some key) (some content)).valid = true → Text.lines content <+: log) ↔
      ¬Replaced env key log content ∧ ¬Padded log content := by
  rw [valid_iff_linked hkey]
  constructor
  · intro h
    refine ⟨fun hreplaced => hreplaced.not_prefix hlines (h (hreplaced.linked hlog)), ?_⟩
    rintro ⟨hpre, hne⟩
    exact hne (trimmedLines_eq_lines_of_take hlines (h (hlog.of_prefix hpre))).symm
  · rintro ⟨hreplaced, hpadded⟩ hlinked
    by_cases hpre : Text.trimmedLines content <+: log
    · have heq : Text.lines content = Text.trimmedLines content :=
        not_not.mp fun hne => hpadded ⟨hpre, hne⟩
      rwa [heq]
    rcases List.eq_nil_or_concat (Text.trimmedLines content) with hnil | ⟨front, line, hconcat⟩
    · exact absurd (hnil ▸ List.nil_prefix) hpre
    rw [List.concat_eq_append] at hconcat
    rw [hconcat] at hlinked hpre
    have hpublished := hforged.published
    rw [hconcat] at hpublished
    have hfront := prefix_of_linked hlog hnodup hforged.collision hpublished hlinked
    have htake := List.prefix_iff_eq_take.mp hfront
    refine absurd ⟨front.length, line, ?_, hfront.length_le, ?_, ?_⟩ hreplaced
    · rw [hconcat, ← htake]
    · intro hget
      refine hpre ?_
      have hnext := List.take_prefix (front.length + 1) log
      rwa [List.take_add_one, hget, ← htake] at hnext
    · rw [← htake]
      exact ((linked_append none front [line]).mp hlinked).2.1

end EventLogger

namespace LogState

/-- A step adds a line and its event, or it does not touch what the logger has in memory. -/
theorem emit_cases (s : LogState) (event : LoggedEvent) (now : String) (calls : AppendCalls) {s'}
    (hs' : s.step env key (.emit event now calls) = s') :
    (∃ line, line = entryLine event now s.logger.prevHash s.logger.seq ∧
      s.lineOf env key event now calls = some line ∧
      s'.appended = s.appended ++ [(event, now)] ∧ s'.logger.seq = s.logger.seq + 1 ∧
      s'.logger.prevHash = some (env.hmac key line)) ∨
    (s.lineOf env key event now calls = none ∧ s'.appended = s.appended ∧
      s'.logger.seq = s.logger.seq ∧ s'.logger.prevHash = s.logger.prevHash) := by
  subst hs'
  rw [lineOf, LogState.step]
  by_cases hhandles : handles event = true
  · rw [if_pos hhandles]
    generalize hr : s.logger.append env key event now calls s.file = r
    dsimp only
    rcases append_cases env key event now calls s.logger s.file hr with
      ⟨line, hline, hwritten, hseq, hprev, -⟩ | ⟨hfailed, hseq, hprev, -⟩
    · rw [if_pos ⟨hhandles, hwritten⟩, if_pos hwritten]
      exact .inl ⟨line, hline, congrArg some hline.symm, rfl, hseq, hprev⟩
    · have hnot : ¬r.2.2 = true := Bool.not_eq_true _ ▸ hfailed
      rw [if_neg fun hboth => hnot hboth.2, if_neg hnot]
      exact .inr ⟨rfl, rfl, hseq, hprev⟩
  · rw [if_neg fun hboth => hhandles hboth.1, if_neg hhandles]
    exact .inr ⟨rfl, rfl, rfl, rfl⟩

end LogState

namespace ExposedLog

variable {s : ExposedLog}

/-- A logger that is made finds the last line of the log at the end of the file. -/
def FindsLog (s : ExposedLog) : ExposedInput → Prop
  | .restart => recoveredLine s.file = s.written.getLast?
  | _ => True

/-- The log is that of one logger, whatever the file holds. -/
structure Continues (env : EventLogEnv) (key : String) (s : ExposedLog) : Prop where
  written : s.written = logLines env key none 0 s.appended
  seq : s.logger.seq = s.appended.length
  prevHash : s.logger.prevHash = lastHash env key none s.written
  held : s.held = s.written.getLast?
  signed : s.signed = s.written.dropLast

theorem recoverChain_of_none {file : Option String} (h : recoveredLine file = none) :
    recoverChain env key file = {} := by
  cases file with
  | none => rfl
  | some content =>
    rw [recoveredLine] at h
    rw [recoverChain]
    cases hlast : (Text.trimmedLines content).getLast? with
    | none => rfl
    | some line =>
      rw [hlast] at h
      dsimp only at h ⊢
      split
      · rfl
      · split
        · rfl
        · rfl
        · next entry hnull hparse =>
          simp [hparse] at h

theorem getLast?_of_recoveredLine {content line : String}
    (h : recoveredLine (some content) = some line) :
    (Text.trimmedLines content).getLast? = some line := by
  rw [recoveredLine] at h
  split at h
  · cases h
  · next lastLine hlast =>
    split at h
    · cases h
    · cases h
    · rw [hlast, h]

theorem Continues.emit (h : s.Continues env key) (event : LoggedEvent) (now : String)
    (calls : AppendCalls) : (s.step env key (.emit event now calls)).Continues env key := by
  rw [ExposedLog.step]
  generalize hnext : s.toLogState.step env key (.emit event now calls) = next
  rcases LogState.emit_cases s.toLogState event now calls hnext with
    ⟨line, hline, hlineOf, happended, hseq, hprev⟩ | ⟨hlineOf, happended, hseq, hprev⟩
  · have hwritten : s.written ++ [line] = logLines env key none 0 next.appended := by
      rw [happended, logLines_concat, Nat.zero_add, hline, h.prevHash, h.seq, h.written]
    have hsigned : s.signed ++ s.held.toList = (s.written ++ [line]).dropLast := by
      rw [h.signed, h.held, List.dropLast_concat]
      cases hlast : s.written.getLast? with
      | none => rw [List.getLast?_eq_none_iff.mp hlast]; rfl
      | some last => exact List.dropLast_append_getLast? last hlast
    rw [hlineOf]
    refine ⟨hwritten, ?_, ?_, ?_, hsigned⟩
    · show next.logger.seq = next.appended.length
      rw [hseq, happended, h.seq, List.length_append]
      exact (Nat.cast_succ _).symm
    · show next.logger.prevHash = lastHash env key none (s.written ++ [line])
      rw [hprev, lastHash_concat]
    · exact List.getLast?_concat.symm
  · rw [hlineOf]
    have hwritten : s.written ++ [] = s.written := List.append_nil _
    refine ⟨?_, ?_, ?_, ?_, ?_⟩
    · show s.written ++ [] = logLines env key none 0 next.appended
      rw [hwritten, happended, h.written]
    · show next.logger.seq = next.appended.length
      rw [hseq, happended, h.seq]
    · show next.logger.prevHash = lastHash env key none (s.written ++ [])
      rw [hwritten, hprev, h.prevHash]
    · show s.held = (s.written ++ []).getLast?
      rw [hwritten, h.held]
    · show s.signed = (s.written ++ []).dropLast
      rw [hwritten, h.signed]

/-- On a file that nobody has changed a logger finds the log. -/
theorem Continues.findsLog (h : s.Continues env key) (hfile : s.file = some (Text.unlines s.written))
    (i : ExposedInput) : s.FindsLog i := by
  cases i with
  | restart =>
    rw [FindsLog, hfile, h.written]
    rcases List.eq_nil_or_concat s.appended with hnil | ⟨appended, ⟨event, now⟩, hconcat⟩
    · rw [hnil]
      rfl
    · rw [hconcat, List.concat_eq_append, recoveredLine,
        Text.trimmedLines_unlines (isLine_logLines none 0 _), logLines_concat, List.getLast?_concat,
        Nat.zero_add]
      simp only [parse_entryLine]
      rfl
  | emit event now calls => trivial
  | close => trivial
  | edit content => trivial
  | swap file => trivial

/-- A logger that finds the last line of the log at the end of the file stands where the one before
it stood. -/
theorem Continues.restart (h : s.Continues env key)
    (hfinds : recoveredLine s.file = s.written.getLast?) :
    (s.step env key .restart).Continues env key := by
  have hrecovered : recoverChain env key s.file =
      { seq := s.appended.length, prevHash := lastHash env key none s.written } := by
    rcases List.eq_nil_or_concat s.appended with hnil | ⟨appended, ⟨event, now⟩, hconcat⟩
    · have hempty : s.written = [] := by
        rw [h.written, hnil]
        rfl
      rw [hempty] at hfinds
      rw [recoverChain_of_none hfinds, hempty, hnil]
      rfl
    · rw [List.concat_eq_append] at hconcat
      rw [h.written, hconcat, logLines_concat, List.getLast?_concat, Nat.zero_add] at hfinds
      cases hfile : s.file with
      | none =>
        rw [hfile] at hfinds
        cases hfinds
      | some content =>
        rw [hfile] at hfinds
        rw [LogState.recoverChain_of_getLast? (getLast?_of_recoveredLine hfinds), h.written, hconcat,
          logLines_concat, lastHash_concat, Nat.zero_add, List.length_append, List.length_singleton,
          Nat.cast_succ]
  rw [ExposedLog.step, hrecovered]
  exact ⟨h.written, rfl, rfl, hfinds, h.signed⟩

theorem Continues.step (h : s.Continues env key) {i : ExposedInput} (hi : s.FindsLog i) :
    (s.step env key i).Continues env key := by
  cases i with
  | edit content => exact ⟨h.written, h.seq, h.prevHash, h.held, h.signed⟩
  | swap file => exact ⟨h.written, h.seq, h.prevHash, h.held, h.signed⟩
  | emit event now calls => exact h.emit event now calls
  | close => exact ⟨h.written, h.seq, h.prevHash, h.held, h.signed⟩
  | restart => exact h.restart hi

theorem continues_init : (init env key).Continues env key := ⟨rfl, by rfl, rfl, rfl, rfl⟩

theorem continues_of_run {inputs : List ExposedInput}
    (h : Run.AllSteps (step env key) FindsLog (init env key) inputs) :
    Run.AllStates (step env key) (Continues env key) (init env key) inputs :=
  Run.allStates_of_invariant (fun _ _ hs hi => hs.step hi) continues_init h

end ExposedLog

/-- In every run of loggers on a path without a file, of which each finds the last line of the log
when it is made, and whatever others do to the file: a file that nobody without the secret could
have forged is accepted only if it is a beginning of the log, except that its last line may have
been replaced and white space added after it. -/
theorem eventLog_tamperEvident_iff {hmacSecret : String}
    (hkey : EventLogger.secret env hmacSecret = some key) (inputs : List ExposedInput)
    (h : Run.AllSteps (ExposedLog.step env key) ExposedLog.FindsLog (ExposedLog.init env key)
      inputs) :
    Run.AllStates (ExposedLog.step env key)
      (fun s => ∀ content, Unforged env key s.signed content →
        (((verifyLog env (some key) (some content)).valid = true →
            Text.lines content <+: s.written) ↔
          ¬Replaced env key s.written content ∧ ¬Padded s.written content))
      (ExposedLog.init env key) inputs := by
  refine (ExposedLog.continues_of_run h).mono fun s hs content hforged => ?_
  rw [hs.signed] at hforged
  have hlinked : Linked env key none s.written := hs.written ▸ linked_logLines none 0 s.appended
  have hlines : ∀ line ∈ s.written, Text.IsLine line := hs.written ▸ isLine_logLines none 0 s.appended
  have hnodup : s.written.Nodup := hs.written ▸ nodup_logLines none 0 s.appended
  exact valid_prefix_iff (secret_ne_empty hkey) hlinked hlines hnodup hforged

namespace ExposedLog

theorem take_logLines (prevHash : Option String) (n k : Nat)
    (appended : List (LoggedEvent × String)) :
    (logLines env key prevHash n appended).take k =
      logLines env key prevHash n (appended.take k) := by
  induction appended generalizing prevHash n k with
  | nil => rw [List.take_nil, logLines, List.take_nil]
  | cons e appended ih =>
    cases k with
    | zero => rfl
    | succ k => rw [List.take_succ_cons, logLines, logLines, List.take_succ_cons, ih]

/-- A logger that is made on a log that was cut off goes on from there: `verifyLog` accepts the
file, which is no beginning of the log unless the same line is written again. -/
theorem Continues.cut {s : ExposedLog} (h : s.Continues env key) (hkey : key ≠ "") {k : Nat}
    (hk : k < s.written.length) {event : LoggedEvent} (hhandles : handles event = true)
    (now : String)
    (hnew : s.written[k]? ≠
      some (entryLine event now (lastHash env key none (s.written.take k)) k)) {s' : ExposedLog}
    (hs' : Run.run (ExposedLog.step env key) s
      [.swap (some (Text.unlines (s.written.take k))), .restart, .emit event now {}] = s') :
    ∃ content, s'.file = some content ∧
      (verifyLog env (some key) (some content)).valid = true ∧
      ¬Text.lines content <+: s'.written := by
  have hcut : s.written.take k = logLines env key none 0 (s.appended.take k) := by
    rw [h.written, take_logLines]
  have hlength : (s.appended.take k).length = k := by
    rw [h.written, length_logLines] at hk
    exact List.length_take_of_le (Nat.le_of_lt hk)
  have hrecovered : recoverChain env key (some (Text.unlines (s.written.take k))) =
      { seq := k, prevHash := lastHash env key none (s.written.take k) } := by
    rw [hcut, LogState.recoverChain_unlines, hlength]
  generalize hline : entryLine event now (lastHash env key none (s.written.take k)) k = line at hnew
  have hnext : s.written.take k ++ [line] =
      logLines env key none 0 (s.appended.take k ++ [(event, now)]) := by
    rw [logLines_concat, ← hcut, Nat.zero_add, hlength, hline]
  have hfile : s'.file = some (Text.unlines (s.written.take k ++ [line])) := by
    rw [Text.unlines_concat, ← hs', ← hline]
    simp only [Run.run, List.foldl_cons, List.foldl_nil, ExposedLog.step, hrecovered,
      LogState.step, append, hhandles]
    rfl
  have hwritten : s'.written = s.written ++ [line] := by
    rw [← hs', ← hline]
    simp only [Run.run, List.foldl_cons, List.foldl_nil, ExposedLog.step, hrecovered,
      LogState.lineOf, append, hhandles]
    rfl
  refine ⟨_, hfile, ?_, ?_⟩
  · rw [valid_iff_linked hkey, hnext, Text.trimmedLines_unlines (isLine_logLines none 0 _)]
    exact linked_logLines none 0 _
  · rw [hnext, Text.lines_unlines (isLine_logLines none 0 _), ← hnext, hwritten]
    rintro ⟨rest, hrest⟩
    have hget := congrArg (·[k]?) hrest
    rw [getElem?_take_concat (Nat.le_of_lt hk), List.getElem?_append_left hk] at hget
    exact hnew hget.symm

end ExposedLog

/-- The lines of a log of two events, of which the second has this kind. -/
def twoLines (kind : String) : List String :=
  logLines ⟨String.append, none⟩ "secret" none 0
    [(bareEvent "verify.lint", "t0"), (bareEvent kind, "t2")]

theorem isLine_twoLines (kind : String) : ∀ line ∈ twoLines kind, Text.IsLine line :=
  isLine_logLines none 0 _

/-- The second line of a log of two says nothing that the log has not said. -/
theorem unforged_twoLines (kind : String) :
    Unforged ⟨String.append, none⟩ "secret" (twoLines "state.graph").dropLast
      (Text.unlines (twoLines kind)) where
  published x y hxy _ := by
    rw [Text.trimmedLines_unlines (isLine_twoLines kind)] at hxy
    obtain ⟨before, after, h⟩ := hxy
    cases before with
    | nil =>
      obtain rfl := (List.cons.inj h).1
      exact List.mem_singleton_self _
    | cons l before =>
      have hlength := congrArg List.length h
      simp only [twoLines, List.length_append, List.length_cons, length_logLines] at hlength
      simp only [List.length_nil] at hlength
      omega
  collision x _ y _ h := (String.append_right_inj "secret").mp h

/-- Two events are logged, and somebody puts the record of another event in the place of the
second. -/
def editedLog : List ExposedInput :=
  [.restart, .emit (bareEvent "verify.lint") "t0" {}, .emit (bareEvent "state.graph") "t2" {},
    .edit (Text.unlines (twoLines "state.changes"))]

/-- What becomes of the log, where the hash is the secret followed by the text. -/
def editedLogRun : ExposedLog :=
  Run.run (ExposedLog.step ⟨String.append, none⟩ "secret")
    (ExposedLog.init ⟨String.append, none⟩ "secret") editedLog

theorem findsLog_editedLog : Run.AllSteps (ExposedLog.step ⟨String.append, none⟩ "secret")
    ExposedLog.FindsLog (ExposedLog.init ⟨String.append, none⟩ "secret") editedLog :=
  ⟨rfl, trivial, trivial, trivial, trivial⟩

theorem continues_editedLogRun : editedLogRun.Continues ⟨String.append, none⟩ "secret" :=
  (ExposedLog.continues_of_run findsLog_editedLog).last

theorem written_editedLogRun : editedLogRun.written = twoLines "state.graph" := by
  have happended : editedLogRun.appended =
      [(bareEvent "verify.lint", "t0"), (bareEvent "state.graph", "t2")] := rfl
  rw [continues_editedLogRun.written, happended, twoLines]

theorem signed_editedLogRun : editedLogRun.signed = (twoLines "state.graph").dropLast := by
  rw [continues_editedLogRun.signed, written_editedLogRun]

/-- The file before it was changed. -/
theorem eventLog_tamperEvident_genuine :
    ¬Replaced ⟨String.append, none⟩ "secret" (twoLines "state.graph")
        (Text.unlines (twoLines "state.graph")) ∧
      ¬Padded (twoLines "state.graph") (Text.unlines (twoLines "state.graph")) := by
  have hkey : secret ⟨String.append, none⟩ "secret" = some "secret" := by decide
  have hlast := (eventLog_tamperEvident_iff hkey editedLog findsLog_editedLog).last
    (Text.unlines (twoLines "state.graph"))
  rw [← editedLogRun, signed_editedLogRun, written_editedLogRun] at hlast
  refine (hlast (unforged_twoLines "state.graph")).mp fun _ => ?_
  rw [Text.lines_unlines (isLine_twoLines _)]

/-- `verifyLog` accepts the changed file, which is no beginning of the log. -/
theorem eventLog_last_line_replaced :
    editedLogRun.file = some (Text.unlines (twoLines "state.changes")) ∧
      Unforged ⟨String.append, none⟩ "secret" editedLogRun.signed
        (Text.unlines (twoLines "state.changes")) ∧
      (verifyLog ⟨String.append, none⟩ (some "secret")
        (some (Text.unlines (twoLines "state.changes")))).valid = true ∧
      ¬Text.lines (Text.unlines (twoLines "state.changes")) <+: editedLogRun.written := by
  rw [signed_editedLogRun, written_editedLogRun]
  refine ⟨rfl, unforged_twoLines "state.changes", ?_, ?_⟩
  · rw [valid_iff_linked (by decide), Text.trimmedLines_unlines (isLine_twoLines _)]
    exact linked_logLines none 0 _
  · rw [Text.lines_unlines (isLine_twoLines _)]
    intro h
    have hlines := h.eq_of_length (by rw [twoLines, twoLines, length_logLines, length_logLines]; rfl)
    have hline := (List.cons.inj (List.cons.inj hlines).2).1
    have hparse := congrArg Json.parse hline
    rw [parse_entryLine, parse_entryLine, Option.some.injEq] at hparse
    have hfields := congrArg eventFields hparse
    rw [eventFields_record, eventFields_record] at hfields
    simp [bareEvent, membersToJson, toJson, eventFields, isReserved] at hfields

end KirkForge
