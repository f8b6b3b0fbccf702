import KirkForge.MemoryPalace.AdapterQueries

/-!
# Two adapters for one history

A `FileAdapter` and a `SqliteAdapter` that are new, to which the same objects are written, and a
query that both answer. Each answer is a view of the history: the adapters select by filters of
their own, in orders of their own, and with limits of their own. The table does not keep the run of
an object, and of its properties what JSON keeps. Whether the answers are the same is a matter of
the objects that are asked for: what they lose in a row, and which objects pass and are newer.
-/

namespace KirkForge

/-- The adapter after the writes, of which each gets the lock. -/
def FileAdapter.after (filePath : String) (history : List MemoryObject) : FileAdapter :=
  history.foldl (fun a obj => (a.write true .missing obj).2) { filePath }

/-- The table after the writes. -/
def SqliteAdapter.after (history : List MemoryObject) : List ObservationRow :=
  history.foldl writeObservation []

/-- Both adapters give the same objects in the same order. -/
def AdaptersAgree (localeCompare : String → String → Ordering) (engine : ObservationSelect)
    (filePath : String) (history : List MemoryObject) (q : AdapterQuery) : Prop :=
  ((FileAdapter.after filePath history).find localeCompare .missing q).1 =
    SqliteAdapter.query engine q (SqliteAdapter.after history)

/-- Where an object stands among those that are written. -/
def written (history : List MemoryObject) (o : MemoryObject) : Nat :=
  (history.map (·.id)).idxOf o.id

/-- Nothing of the object is lost in a row. -/
def MemoryObject.Survives (o : MemoryObject) : Prop :=
  o.runId = none ∧ JsValue.ofFields (JsValue.membersToJson o.properties) = o.properties

namespace AdapterQuery

/-- The limit lets as many objects through, of so many that pass in the file and in the table. For
the file 0 is no limit and a negative number takes the oldest away; for the table 0 lets nothing
through and a negative number is no limit. -/
def LimitsAlike (q : AdapterQuery) (inFile inTable : Nat) : Prop :=
  match q.limit with
  | none => inFile = min 1000 inTable
  | some x => ∃ n : Int, x = .finite n ∧ -2 ^ 63 ≤ n ∧ n < 2 ^ 63 ∧
      (n = 0 ∧ inFile = 0 ∨ 0 < n ∧ min n.toNat inFile = min n.toNat inTable ∨
        n < 0 ∧ inFile - n.natAbs = inTable)

variable (localeCompare : String → String → Ordering) (history : List MemoryObject)
  (q : AdapterQuery) (a b : MemoryObject)

/-- The first object has the later timestamp, or was written first if `localeCompare` does not tell
the timestamps apart. -/
def newer : Bool :=
  match localeCompare a.timestamp b.timestamp with
  | .gt => true
  | .eq => written history a < written history b
  | .lt => false

/-- The object passes the filters of the query, and so few newer objects pass that the limit, if
there is one, reaches it. -/
def AsksFor : Prop :=
  q.filters.selects a = true ∧
    history.countP (fun b => q.filters.selects b && newer localeCompare history b a) <
      q.fileLimit (history.countP q.filters.selects)

/-- A history and a query that the adapters treat alike. -/
structure TreatsAlike : Prop where
  limit : q.LimitsAlike (history.countP q.filters.selects)
    (history.countP (SqliteAdapter.selects q))
  /-- No object that is asked for has a run or properties that JSON changes. -/
  survives : ∀ a ∈ history, q.AsksFor localeCompare history a → a.Survives
  /-- Its tags match all patterns, and its time passes by bytes too. -/
  selects : ∀ a ∈ history, q.AsksFor localeCompare history a → SqliteAdapter.selects q a = true
  /-- The objects that pass and are newer are those whose rows pass and are newer by bytes. -/
  newer : ∀ a ∈ history, q.AsksFor localeCompare history a → ∀ b ∈ history,
    (q.filters.selects b && AdapterQuery.newer localeCompare history b a) =
      (SqliteAdapter.selects q b && !binaryLe b.timestamp a.timestamp)

end AdapterQuery

/-! ### Adapters after writes -/

/-- The adapter has no objects but its own. -/
def FileAdapter.Fresh (a : FileAdapter) : Prop :=
  a.loadError = none ∧ (a.loaded = false → a.objects = [])

theorem FileAdapter.Fresh.load {a : FileAdapter} (h : a.Fresh) :
    a.load .missing = { a with loaded := true } := by
  obtain ⟨path, objects, loaded, error⟩ := a
  obtain ⟨rfl, hempty⟩ := h
  cases loaded with
  | true => rfl
  | false =>
    cases hempty rfl
    rfl

theorem FileAdapter.Fresh.write {a : FileAdapter} (h : a.Fresh) (obj : MemoryObject) :
    (a.write true .missing obj).2 = { a with objects := a.objects ++ [obj], loaded := true } := by
  rw [FileAdapter.write, if_pos rfl, h.load]
  obtain ⟨path, objects, loaded, error⟩ := a
  obtain ⟨rfl, -⟩ := h
  rfl

theorem FileAdapter.load_after (filePath : String) (history : List MemoryObject) :
    (FileAdapter.after filePath history).load .missing =
      { filePath, objects := history, loaded := true } := by
  have hrun (history : List MemoryObject) (a : FileAdapter) (h : a.Fresh) :
      (history.foldl (fun a obj => (a.write true .missing obj).2) a).load .missing =
        { a with objects := a.objects ++ history, loaded := true } := by
    induction history generalizing a with
    | nil => rw [List.foldl_nil, h.load, List.append_nil]
    | cons obj history ih =>
      have hnext : { a with objects := a.objects ++ [obj], loaded := true : FileAdapter }.Fresh :=
        ⟨h.1, fun hloaded => (Bool.false_ne_true hloaded.symm).elim⟩
      rw [List.foldl_cons, h.write, ih _ hnext, List.append_assoc]
      rfl
  exact hrun history { filePath } ⟨rfl, fun _ => rfl⟩

theorem FileAdapter.find_after (localeCompare : String → String → Ordering) (filePath : String)
    (history : List MemoryObject) (q : AdapterQuery) :
    ((FileAdapter.after filePath history).find localeCompare .missing q).1 =
      .ok (q.fileResults localeCompare history) := by
  rw [FileAdapter.find, FileAdapter.load_after]

theorem SqliteAdapter.after_eq {history : List MemoryObject}
    (h : (history.map (·.id)).Nodup) : after history = history.map observationRow := by
  have hrows : after history =
      (history.map observationRow).foldl
        (fun rows row => Table.put ObservationRow.id row rows) [] := by
    rw [List.foldl_map]
    rfl
  have hids : ((history.map observationRow).map ObservationRow.id).Nodup := by
    rw [List.map_map]
    exact h
  rw [hrows, Table.foldl_put hids]
  rfl

theorem pairwise_written {history : List MemoryObject} (h : (history.map (·.id)).Nodup) :
    history.Pairwise fun a b => written history a < written history b := by
  refine List.pairwise_iff_getElem.mpr fun i j hi hj hij => ?_
  have hindex (k : Nat) (hk : k < history.length) : written history history[k] = k := by
    have hk' : k < (history.map (·.id)).length := by rwa [List.length_map]
    have hget : history[k].id = (history.map (·.id))[k] := by rw [List.getElem_map]
    rw [written, hget]
    exact h.idxOf_getElem k hk'
  rw [hindex i hi, hindex j hj]
  exact hij

/-! ### The answers as views -/

/-- What a `FileAdapter` shows of the objects that are written to it. -/
def fileView (localeCompare : String → String → Ordering) (q : AdapterQuery) :
    View MemoryObject where
  selects := q.filters.selects
  le a b := (localeCompare b.timestamp a.timestamp).isLE
  limit := q.fileLimit

/-- What a `SqliteAdapter` shows of them, for a limit that SQLite accepts. -/
def sqliteView (q : AdapterQuery) (limit : Option Nat) : View MemoryObject where
  selects := SqliteAdapter.selects q
  le a b := binaryLe b.timestamp a.timestamp
  limit length := limit.getD length

theorem fileResults_eq_shown (localeCompare : String → String → Ordering) (q : AdapterQuery)
    (history : List MemoryObject) :
    q.fileResults localeCompare history =
      (fileView localeCompare q).shown
        ((history.filter (fileView localeCompare q).selects).mergeSort
          (fileView localeCompare q).le) := rfl

theorem arranged_fileView (localeCompare : String → String → Ordering)
    [Std.TransCmp localeCompare] (q : AdapterQuery) {history : List MemoryObject}
    (h : (history.map (·.id)).Nodup) :
    (fileView localeCompare q).Arranged (written history) history
      ((history.filter (fileView localeCompare q).selects).mergeSort
        (fileView localeCompare q).le) := by
  refine View.arranged_mergeSort (fun a b c hab hbc => ?_) (fun a b => ?_) (pairwise_written h)
  · exact Std.TransCmp.isLE_trans hbc hab
  · rw [Bool.or_eq_true]
    show (localeCompare b.timestamp a.timestamp).isLE = true ∨
      (localeCompare a.timestamp b.timestamp).isLE = true
    have hswap : localeCompare a.timestamp b.timestamp =
        (localeCompare b.timestamp a.timestamp).swap := Std.OrientedCmp.eq_swap
    rw [hswap]
    cases localeCompare b.timestamp a.timestamp <;> simp

/-- With distinct timestamps the order of the rows is that of the view. -/
theorem exists_arranged_select (engine : ObservationSelect) (q : AdapterQuery)
    {history : List MemoryObject} (hids : (history.map (·.id)).Nodup)
    (htimes : (history.map (·.timestamp)).Nodup) {n : Option Nat}
    (hn : sqlLimit (q.limit.getD 1000) = some n) :
    ∃ t, (sqliteView q n).Arranged (written history) history t ∧
      SqliteAdapter.query engine q (SqliteAdapter.after history) =
        .ok (((sqliteView q n).shown t).map fun o =>
          SqliteAdapter.rowToObject (SqliteAdapter.observationRow o)) := by
  obtain ⟨sorted, hperm, hsorted, hquery⟩ :=
    SqliteAdapter.query_eq_ok engine (SqliteAdapter.after history) hn
  have hselects : ((fun r => (SqliteAdapter.conditions q).all (·.holds r)) ∘
      SqliteAdapter.observationRow) = SqliteAdapter.selects q :=
    funext (SqliteAdapter.conditions_all q)
  rw [SqliteAdapter.after_eq hids, List.filter_map, hselects] at hperm
  obtain ⟨t, ht, rfl⟩ := View.exists_perm_of_perm_map hperm.symm
  have hdistinct : t.Pairwise fun a b => a.timestamp ≠ b.timestamp := by
    refine (ht.pairwise_iff fun h => h.symm).mpr ?_
    exact (List.pairwise_map.mp htimes).filter _
  refine ⟨t, ⟨ht, ?_⟩, ?_⟩
  · refine ((List.pairwise_map.mp hsorted).and hdistinct).imp fun {a b} hab => ?_
    have hback : binaryLe a.timestamp b.timestamp = false :=
      Bool.eq_false_iff.mpr fun h => hab.2 (binaryLe_antisymm h hab.1)
    show (binaryLe b.timestamp a.timestamp && (!binaryLe a.timestamp b.timestamp || _)) = true
    rw [hback]
    exact (Bool.and_eq_true _ _).mpr ⟨hab.1, rfl⟩
  · rw [hquery, List.length_map, ← List.map_take, List.map_map]
    rfl

/-- What comes back from the table is the object if and only if nothing of it is lost. -/
theorem rowToObject_eq_iff (o : MemoryObject) :
    SqliteAdapter.rowToObject (SqliteAdapter.observationRow o) = o ↔ o.Survives := by
  rw [SqliteAdapter.rowToObject_observationRow, MemoryObject.Survives]
  obtain ⟨id, kind, taskId, runId, timestamp, description, properties, tags⟩ := o
  simp [eq_comm]

/-! ### The limits -/

theorem sqlLimit_intCast {k : Int} (h : -2 ^ 63 ≤ k ∧ k < 2 ^ 63) :
    sqlLimit (.finite k) = some (if k < 0 then none else some k.toNat) := by
  rw [sqlLimit, Rat.num_intCast, Rat.den_intCast, if_pos ⟨rfl, h⟩]

theorem sqlLimit_eq_some {x : JsNumber} {n : Option Nat} (h : sqlLimit x = some n) :
    ∃ k : Int, x = .finite k ∧ -2 ^ 63 ≤ k ∧ k < 2 ^ 63 ∧
      n = if k < 0 then none else some k.toNat := by
  cases x with
  | finite q =>
    rw [sqlLimit] at h
    split at h
    · next hrange =>
      cases h
      exact ⟨q.num, congrArg _ (Rat.coe_int_num_of_den_eq_one hrange.1).symm, hrange.2.1,
        hrange.2.2, rfl⟩
    · cases h
  | posInf => cases h
  | negInf => cases h
  | nan => cases h

theorem sliceEnd_intCast (length : Nat) (k : Int) :
    sliceEnd length (.finite k) = if 0 ≤ k then min k.toNat length else (length + k).toNat := by
  rw [sliceEnd]
  simp only [Rat.intCast_nonneg, Rat.floor_intCast, Rat.ceil_intCast, ite_self]

namespace AdapterQuery

theorem LimitsAlike.accepted {q : AdapterQuery} {inFile inTable : Nat}
    (h : q.LimitsAlike inFile inTable) : ∃ n, sqlLimit (q.limit.getD 1000) = some n := by
  rw [LimitsAlike] at h
  split at h
  · next hlimit =>
    rw [hlimit]
    exact ⟨_, sqlLimit_intCast (k := 1000) (by decide)⟩
  · next x hlimit =>
    obtain ⟨k, rfl, hlow, hhigh, -⟩ := h
    rw [hlimit]
    exact ⟨_, sqlLimit_intCast ⟨hlow, hhigh⟩⟩

/-- The limits are alike if and only if the answers are of one length. -/
theorem limitsAlike_iff {q : AdapterQuery} {n : Option Nat}
    (hn : sqlLimit (q.limit.getD 1000) = some n) (inFile inTable : Nat) :
    q.LimitsAlike inFile inTable ↔
      min (q.fileLimit inFile) inFile = min (n.getD inTable) inTable := by
  obtain ⟨k, hk, hlow, hhigh, rfl⟩ := sqlLimit_eq_some hn
  rw [LimitsAlike, fileLimit]
  cases hlimit : q.limit with
  | none =>
    rw [hlimit] at hk
    obtain rfl : 1000 = k := by exact_mod_cast JsNumber.finite.inj hk
    show inFile = min 1000 inTable ↔ min inFile inFile = min 1000 inTable
    rw [Nat.min_self]
  | some x =>
    rw [hlimit] at hk
    obtain rfl : x = .finite k := hk
    have hunique : (∃ n : Int, JsNumber.finite k = .finite n ∧ -2 ^ 63 ≤ n ∧ n < 2 ^ 63 ∧
        (n = 0 ∧ inFile = 0 ∨ 0 < n ∧ min n.toNat inFile = min n.toNat inTable ∨
          n < 0 ∧ inFile - n.natAbs = inTable)) ↔
        (k = 0 ∧ inFile = 0 ∨ 0 < k ∧ min k.toNat inFile = min k.toNat inTable ∨
          k < 0 ∧ inFile - k.natAbs = inTable) := by
      constructor
      · rintro ⟨n, hn, -, -, h⟩
        obtain rfl : k = n := by exact_mod_cast JsNumber.finite.inj hn
        exact h
      · exact fun h => ⟨k, rfl, hlow, hhigh, h⟩
    have hzero : (JsNumber.finite k = 0 ∨ JsNumber.finite k = .nan) ↔ k = 0 := by
      constructor
      · rintro (h | h)
        · exact_mod_cast JsNumber.finite.inj h
        · cases h
      · rintro rfl
        exact .inl rfl
    simp only [hunique, hzero, sliceEnd_intCast]
    rcases Int.lt_trichotomy k 0 with hneg | rfl | hpos
    · rw [if_neg (Int.ne_of_lt hneg), if_neg (Int.not_le.mpr hneg), if_pos hneg, Option.getD_none]
      omega
    · rw [if_pos rfl, if_neg (Int.lt_irrefl 0), Option.getD_some]
      omega
    · rw [if_neg (Int.ne_of_gt hpos), if_pos (Int.le_of_lt hpos),
        if_neg (Int.not_lt.mpr (Int.le_of_lt hpos)), Option.getD_some]
      omega

/-- Filters and orders that make no difference for the objects of the history, of which none loses
anything, and a limit that is a positive integer, or none for at most 1000 objects. -/
theorem TreatsAlike.of_same {localeCompare : String → String → Ordering}
    {history : List MemoryObject} {q : AdapterQuery}
    (hselects : ∀ a ∈ history, q.filters.selects a = SqliteAdapter.selects q a)
    (hnewer : ∀ a ∈ history, ∀ b ∈ history,
      AdapterQuery.newer localeCompare history b a = !binaryLe b.timestamp a.timestamp)
    (hsurvives : ∀ a ∈ history, a.Survives)
    (hlimit : q.limit = none ∧ history.length ≤ 1000 ∨
      ∃ n : Nat, 0 < n ∧ n < 2 ^ 63 ∧ q.limit = some (n : JsNumber)) :
    q.TreatsAlike localeCompare history := by
  have hcount : history.countP q.filters.selects = history.countP (SqliteAdapter.selects q) :=
    List.countP_congr fun a ha => by rw [hselects a ha]
  refine ⟨?_, fun a ha _ => hsurvives a ha, fun a ha hasks => hselects a ha ▸ hasks.1,
    fun a ha _ b hb => by rw [hselects b hb, hnewer a ha b hb]⟩
  rw [LimitsAlike, ← hcount]
  rcases hlimit with ⟨hnone, hlength⟩ | ⟨n, hpos, hn, hsome⟩
  · rw [hnone]
    exact (Nat.min_eq_right (List.countP_le_length.trans hlength)).symm
  · rw [hsome]
    exact ⟨n, congrArg JsNumber.finite (Rat.intCast_natCast n).symm, by omega, by omega,
      .inr (.inl ⟨by omega, rfl⟩)⟩

end AdapterQuery

/-! ### The two views -/

theorem before_fileView (localeCompare : String → String → Ordering) [Std.TransCmp localeCompare]
    (q : AdapterQuery) (history : List MemoryObject) (a b : MemoryObject) :
    (fileView localeCompare q).before (written history) a b =
      AdapterQuery.newer localeCompare history a b := by
  have hswap : localeCompare b.timestamp a.timestamp =
      (localeCompare a.timestamp b.timestamp).swap := Std.OrientedCmp.eq_swap
  show ((localeCompare b.timestamp a.timestamp).isLE &&
    (!(localeCompare a.timestamp b.timestamp).isLE || _)) = _
  rw [AdapterQuery.newer, hswap]
  cases localeCompare a.timestamp b.timestamp <;> rfl

theorem before_sqliteView {history : List MemoryObject} (htimes : (history.map (·.timestamp)).Nodup)
    (q : AdapterQuery) (n : Option Nat) {a b : MemoryObject} (ha : a ∈ history) (hb : b ∈ history) :
    (sqliteView q n).before (written history) a b = !binaryLe a.timestamp b.timestamp := by
  show (binaryLe b.timestamp a.timestamp && (!binaryLe a.timestamp b.timestamp || _)) = _
  cases hab : binaryLe a.timestamp b.timestamp with
  | false =>
    have htotal := binaryLe_total a.timestamp b.timestamp
    rw [hab, Bool.false_or] at htotal
    rw [htotal]
    rfl
  | true =>
    cases hba : binaryLe b.timestamp a.timestamp with
    | false => rfl
    | true =>
      obtain rfl := List.inj_on_of_nodup_map htimes ha hb (binaryLe_antisymm hab hba)
      simp

theorem shows_fileView_iff (localeCompare : String → String → Ordering)
    [Std.TransCmp localeCompare] (q : AdapterQuery) (history : List MemoryObject)
    (a : MemoryObject) :
    (fileView localeCompare q).Shows (written history) history a ↔
      q.AsksFor localeCompare history a := by
  have hrank : (fileView localeCompare q).rank (written history) history a =
      history.countP fun b =>
        q.filters.selects b && AdapterQuery.newer localeCompare history b a :=
    List.countP_congr fun b _ => by rw [before_fileView]; rfl
  rw [View.Shows, hrank]
  rfl

/-- The adapters agree if and only if the limit lets as many objects through in both, nothing is
lost of an object that is asked for, its row passes too, and the same objects that pass are
newer. -/
theorem adaptersAgree_iff {localeCompare : String → String → Ordering} [Std.TransCmp localeCompare]
    (engine : ObservationSelect) (filePath : String) {history : List MemoryObject}
    (hids : (history.map (·.id)).Nodup) (htimes : (history.map (·.timestamp)).Nodup)
    (q : AdapterQuery) :
    AdaptersAgree localeCompare engine filePath history q ↔
      q.TreatsAlike localeCompare history := by
  rw [AdaptersAgree, FileAdapter.find_after]
  cases hlimit : sqlLimit (q.limit.getD 1000) with
  | none =>
    obtain ⟨cause, hcause⟩ :=
      SqliteAdapter.query_eq_error engine (SqliteAdapter.after history) hlimit
    rw [hcause]
    constructor
    · intro h
      cases h
    · intro h
      obtain ⟨n, hn⟩ := h.limit.accepted
      cases hlimit.symm.trans hn
  | some n =>
    obtain ⟨t, harranged, hquery⟩ := exists_arranged_select engine q hids htimes hlimit
    have hfile := arranged_fileView localeCompare q hids
    have hinj : ∀ a ∈ history, ∀ b ∈ history, a.id = b.id → a = b :=
      fun a ha b hb => List.inj_on_of_nodup_map hids ha hb
    have hid : ∀ o, (SqliteAdapter.rowToObject (SqliteAdapter.observationRow o)).id = o.id :=
      fun _ => rfl
    have hlength := AdapterQuery.limitsAlike_iff hlimit (history.countP q.filters.selects)
      (history.countP (SqliteAdapter.selects q))
    rw [hquery, fileResults_eq_shown, Except.ok.injEq, hfile.shown_eq_map_iff hid hinj harranged,
      hfile.shown_eq_iff harranged, hfile.length_shown, harranged.length_shown]
    simp only [shows_fileView_iff, before_fileView, rowToObject_eq_iff]
    constructor
    · rintro ⟨⟨hsame, hshown⟩, hsurvives⟩
      refine ⟨hlength.mpr hsame, hsurvives, fun a ha hasks => (hshown a ha hasks).1,
        fun a ha hasks b hb => ?_⟩
      rw [← before_sqliteView htimes q n hb ha]
      exact (hshown a ha hasks).2 b hb
    · intro h
      refine ⟨⟨hlength.mp h.limit, fun a ha hasks => ⟨h.selects a ha hasks, fun b hb => ?_⟩⟩,
        h.survives⟩
      rw [before_sqliteView htimes q n hb ha]
      exact h.newer a ha hasks b hb

/-- An object of a history. -/
def observation (id timestamp : String) (runId : Option String) : MemoryObject where
  id
  kind := "task-observation"
  taskId := "t1"
  runId
  timestamp
  description := ""
  properties := .nil
  tags := []

/-- Two objects without a run. -/
theorem adapters_agree_without_runs :
    AdaptersAgree compare ObservationSelect.inMemory "memory.json"
      [observation "a" "2024-01-01T00:00:00.000Z" none,
        observation "b" "2024-01-02T00:00:00.000Z" none] { limit := some 1 } := by
  refine (adaptersAgree_iff _ _ (by decide) (by decide) _).mpr
    (.of_same (by decide) (by decide) (fun a ha => ?_) (.inr ⟨1, by decide, by decide, rfl⟩))
  simp only [List.mem_cons, List.not_mem_nil, or_false] at ha
  obtain rfl | rfl := ha
  · exact ⟨rfl, rfl⟩
  · exact ⟨rfl, rfl⟩

/-- An object with a run, which has none when it comes from the table. -/
theorem adapters_disagree_on_run :
    ¬AdaptersAgree compare ObservationSelect.inMemory "memory.json"
      [observation "a" "2024-01-01T00:00:00.000Z" (some "r1")] {} := by
  intro h
  have hresults (o : MemoryObject) : AdapterQuery.fileResults compare {} [o] = [o] := by
    simp [AdapterQuery.fileResults, AdapterQuery.fileLimit, AdapterQuery.filters,
      MemoryQuery.results, MemoryQuery.selects]
  rw [AdaptersAgree, FileAdapter.find_after, hresults] at h
  have hrun := SqliteAdapter.runId_of_query h.symm _ (List.mem_singleton_self _)
  cases hrun

end KirkForge
