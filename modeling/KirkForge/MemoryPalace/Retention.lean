import KirkForge.MemoryPalace.AdapterEquivalence

/-!
# Retention

`evictExpired` and `evictOverflow` of `MemoryStore` (`memory-palace/src/store.ts`) over a file, a
list in memory or a table. Both count objects and delete none, so what they report is right exactly
when there is nothing to evict.
-/

namespace KirkForge

/-! ### The text of a date -/

namespace JsDate

/-- `TimeClip` of ECMAScript. -/
def timeClip : JsNumber → Option Int
  | .finite x =>
    if |x| ≤ 8640000000000000 then some (if 0 ≤ x then x.floor else x.ceil) else none
  | _ => none

/-- The year, the month and the day, so many days after the first of January 1970. In between, a
year begins in March and is one of an era of 400. -/
def civil (days : Int) : Int × Nat × Nat :=
  let era := (days + 719468) / 146097
  let day := ((days + 719468) % 146097).toNat
  let year := (day - day / 1460 + day / 36524 - day / 146096) / 365
  let dayOfYear := day - (365 * year + year / 4 - year / 100)
  let month := (5 * dayOfYear + 2) / 153
  let month' := if month < 10 then month + 3 else month - 9
  let dayOfMonth := dayOfYear - (153 * month + 2) / 5 + 1
  (year + era * 400 + (if month' ≤ 2 then 1 else 0), month', dayOfMonth)

def yearText (year : Int) : String :=
  if 0 ≤ year ∧ year ≤ 9999 then Text.padDigits 4 year.toNat
  else (if year < 0 then "-" else "+") ++ Text.padDigits 6 year.natAbs

/-- `new Date(x).toISOString()` -/
def toISOString (x : JsNumber) : Except String String :=
  match timeClip x with
  | none => .error "Invalid time value"
  | some t =>
    let (year, month, day) := civil (t / 86400000)
    let ms := (t % 86400000).toNat
    .ok (yearText year ++ "-" ++ Text.padDigits 2 month ++ "-" ++ Text.padDigits 2 day ++ "T" ++
      Text.padDigits 2 (ms / 3600000) ++ ":" ++ Text.padDigits 2 (ms / 60000 % 60) ++ ":" ++
      Text.padDigits 2 (ms / 1000 % 60) ++ "." ++ Text.padDigits 3 (ms % 1000) ++ "Z")

example : (toISOString 1709164800123).toOption = some "2024-02-29T00:00:00.123Z" := by
  decide

example : (toISOString (-62198755200000)).toOption = some "-000001-01-01T00:00:00.000Z" := by
  decide

end JsDate

/-! ### The adapters of a store -/

/-- The table of observations with `SELECT COUNT(*)`, which may throw. -/
structure ObservationTable extends ObservationSelect where
  count : List ObservationRow → Except String Nat
  count_ok {rows n} : count rows = .ok n → n = rows.length

def ObservationTable.inMemory : ObservationTable where
  toObservationSelect := .inMemory
  count rows := .ok rows.length
  count_ok h := (Except.ok.inj h).symm

/-- What an adapter meets with when it is called. -/
structure RetentionIo where
  localeCompare : String → String → Ordering
  disk : DiskFile
  table : ObservationTable

inductive RetentionAdapter
  | file (a : FileAdapter)
  | inMemory (a : InMemoryAdapter)
  | sqlite (rows : List ObservationRow)

structure MemoryStats where
  totalObjects : Nat
  lastWrite : String

namespace RetentionAdapter

def query (io : RetentionIo) (q : AdapterQuery) :
    RetentionAdapter → Except String (List MemoryObject) × RetentionAdapter
  | file a => (a.find io.localeCompare io.disk q).map id file
  | inMemory a => (.ok (q.fileResults io.localeCompare a.objects), inMemory a)
  | sqlite rows => (SqliteAdapter.query io.table.toObservationSelect q rows, sqlite rows)

def objectStats (objects : List MemoryObject) : MemoryStats where
  totalObjects := objects.length
  lastWrite := (objects.getLast?.map (·.timestamp)).getD "never"

def tableStats (table : ObservationTable) (rows : List ObservationRow) :
    Except String MemoryStats :=
  match (do return (← table.count rows, ← table.select [] 1 rows)) with
  | .ok (count, last) =>
    .ok { totalObjects := count, lastWrite := (last.head?.map (·.timestamp)).getD "never" }
  | .error cause => .error ("SqliteAdapter stats failed: " ++ cause)

def stats (io : RetentionIo) : RetentionAdapter → Except String MemoryStats × RetentionAdapter
  | file a =>
    let a := a.load io.disk
    match a.loadError with
    | some cause => (.error cause, file a)
    | none => (.ok (objectStats a.objects), file a)
  | inMemory a => (.ok (objectStats a.objects), inMemory a)
  | sqlite rows => (tableStats io.table rows, sqlite rows)

/-- The objects that are stored. -/
def stored (io : RetentionIo) : RetentionAdapter → List MemoryObject
  | file a => (a.load io.disk).objects
  | inMemory a => a.objects
  | sqlite rows => rows.map SqliteAdapter.rowToObject

end RetentionAdapter

/-! ### The store -/

structure RetentionOptions where
  ttlMs : JsNumber := 0
  maxEntries : JsNumber := 0

namespace MemoryStore

open RetentionAdapter

def evictExpired (io : RetentionIo) (options : RetentionOptions) (now : Nat)
    (a : RetentionAdapter) : Except String Nat × RetentionAdapter :=
  if options.ttlMs.le 0 then (.ok 0, a)
  else
    match JsDate.toISOString ((now : JsNumber) - options.ttlMs) with
    | .error cause => (.error cause, a)
    | .ok cutoff =>
      let (result, a) :=
        a.query io { since := some cutoff, limit := some ((10000 : Nat) : JsNumber) }
      match result with
      | .error _ => (.ok 0, a)
      | .ok _ =>
        let (allResult, a) := a.query io { limit := some ((100000 : Nat) : JsNumber) }
        match allResult with
        | .error _ => (.ok 0, a)
        | .ok objects => (.ok (objects.countP fun obj => !Text.le cutoff obj.timestamp), a)

def evictOverflow (io : RetentionIo) (options : RetentionOptions) (a : RetentionAdapter) :
    Nat × RetentionAdapter :=
  if options.maxEntries.le 0 then (0, a)
  else
    let (statsResult, a) := a.stats io
    match statsResult with
    | .error _ => (0, a)
    | .ok stats =>
      let excess := (stats.totalObjects : JsNumber) - options.maxEntries
      if excess.le 0 then (0, a)
      else
        let (result, a) := a.query io { limit := some excess }
        match result with
        | .error _ => (0, a)
        | .ok list => (list.length, a)

/-! ### What retention promises -/

/-- The objects are gone after a call, and what else a query returned it returns again. -/
structure Gone (io : RetentionIo) (a a' : RetentionAdapter) (gone : List MemoryObject) : Prop where
  stored : (a.stored io).Perm (gone ++ a'.stored io)
  returned : ∀ q list, (a.query io q).1 = .ok list →
    ∃ list', (a'.query io q).1 = .ok list' ∧ ∀ o ∈ list, o ∉ gone → o ∈ list'

/-- Whether an object is older than the time that objects are kept. -/
def expired (options : RetentionOptions) (now : Nat) (o : MemoryObject) : Bool :=
  !options.ttlMs.le 0 &&
    match JsDate.toISOString ((now : JsNumber) - options.ttlMs) with
    | .ok cutoff => !Text.le cutoff o.timestamp
    | .error _ => false

/-- How many of so many objects are beyond the limit. -/
def beyond (options : RetentionOptions) (length : Nat) : Nat :=
  match options.maxEntries with
  | .finite limit => if limit ≤ 0 then 0 else length - limit.floor.toNat
  | _ => 0

/-- As many objects are gone as are reported, and they are the expired ones. -/
def ExpiredGone (io : RetentionIo) (options : RetentionOptions) (now : Nat) (a : RetentionAdapter) :
    Prop :=
  ∀ k, (evictExpired io options now a).1 = .ok k →
    ∃ gone, Gone io a (evictExpired io options now a).2 gone ∧ gone.length = k ∧
      gone.Perm ((a.stored io).filter (expired options now))

/-- As many objects are gone as are reported, and they are the oldest ones beyond the limit. -/
def OverflowGone (io : RetentionIo) (options : RetentionOptions) (a : RetentionAdapter) : Prop :=
  ∃ gone, Gone io a (evictOverflow io options a).2 gone ∧
    gone.length = (evictOverflow io options a).1 ∧
    gone.length = beyond options (a.stored io).length ∧
    ∀ o ∈ gone, ∀ kept ∈ (evictOverflow io options a).2.stored io,
      Text.le o.timestamp kept.timestamp = true

end MemoryStore

namespace RetentionAdapter

variable {io : RetentionIo} {a a' : RetentionAdapter} {q : AdapterQuery} {list : List MemoryObject}

/-! ### What a call changes -/

/-- The adapter once its file is read. -/
def ready (io : RetentionIo) : RetentionAdapter → RetentionAdapter
  | file a => file (a.load io.disk)
  | inMemory a => inMemory a
  | sqlite rows => sqlite rows

theorem query_snd (io : RetentionIo) (q : AdapterQuery) (a : RetentionAdapter) :
    (a.query io q).2 = a.ready io := by
  cases a with
  | file a =>
    rw [query, FileAdapter.find, ready]
    split <;> rfl
  | _ => rfl

theorem stats_snd (io : RetentionIo) (a : RetentionAdapter) : (a.stats io).2 = a.ready io := by
  cases a with
  | file a =>
    rw [stats, ready]
    split <;> rfl
  | _ => rfl

/-- The adapters hold the same objects and give the same answers. -/
structure Same (io : RetentionIo) (a a' : RetentionAdapter) : Prop where
  stored : a'.stored io = a.stored io
  query : ∀ q, (a'.query io q).1 = (a.query io q).1

theorem Same.refl (io : RetentionIo) (a : RetentionAdapter) : Same io a a := ⟨rfl, fun _ => rfl⟩

theorem Same.trans {a'' : RetentionAdapter} (h : Same io a a') (h' : Same io a' a'') :
    Same io a a'' :=
  ⟨h'.stored.trans h.stored, fun q => (h'.query q).trans (h.query q)⟩

theorem same_ready (io : RetentionIo) (a : RetentionAdapter) : Same io a (a.ready io) := by
  cases a with
  | file a =>
    have hload : (a.load io.disk).load io.disk = a.load io.disk :=
      ObjectAdapter.load_of_loaded (ObjectAdapter.loaded_load a io.disk) io.disk
    refine ⟨?_, fun q => ?_⟩
    · rw [ready, RetentionAdapter.stored, RetentionAdapter.stored, hload]
    · rw [ready, RetentionAdapter.query, RetentionAdapter.query, FileAdapter.find,
        FileAdapter.find, hload]
  | _ => exact .refl io _

theorem same_query (io : RetentionIo) (q : AdapterQuery) (a : RetentionAdapter) :
    Same io a (a.query io q).2 := by
  rw [query_snd]
  exact same_ready io a

theorem same_stats (io : RetentionIo) (a : RetentionAdapter) : Same io a (a.stats io).2 := by
  rw [stats_snd]
  exact same_ready io a

/-- Where nothing changes nothing is gone. -/
theorem Same.gone_iff (h : Same io a a') {gone : List MemoryObject} :
    MemoryStore.Gone io a a' gone ↔ gone = [] := by
  constructor
  · intro hgone
    have hlength := hgone.stored.length_eq
    rw [List.length_append, h.stored] at hlength
    exact List.length_eq_zero_iff.mp (by omega)
  · rintro rfl
    refine ⟨?_, fun q list hlist => ⟨list, ?_, fun o ho _ => ho⟩⟩
    · rw [List.nil_append, h.stored]
    · rw [h.query q, hlist]

/-! ### What a call answers -/

theorem mem_fileResults {localeCompare : String → String → Ordering} {objects : List MemoryObject}
    {o : MemoryObject} (h : o ∈ q.fileResults localeCompare objects) : o ∈ objects := by
  have hresults := List.mem_of_mem_take h
  exact (List.mem_filter.mp (List.mem_mergeSort.mp hresults)).1

/-- An adapter returns what is stored. -/
theorem mem_stored_of_query (h : (a.query io q).1 = .ok list) {o : MemoryObject} (ho : o ∈ list) :
    o ∈ a.stored io := by
  cases a with
  | file a =>
    rw [query, FileAdapter.find] at h
    split at h
    · cases h
    · cases h
      exact mem_fileResults ho
  | inMemory a =>
    cases h
    exact mem_fileResults ho
  | sqlite rows =>
    replace h : SqliteAdapter.query io.table.toObservationSelect q rows = .ok list := h
    cases hlimit : sqlLimit (q.limit.getD 1000) with
    | none =>
      obtain ⟨cause, hcause⟩ :=
        SqliteAdapter.query_eq_error io.table.toObservationSelect rows hlimit
      rw [hcause] at h
      cases h
    | some n =>
      obtain ⟨sorted, hperm, -, hquery⟩ :=
        SqliteAdapter.query_eq_ok io.table.toObservationSelect rows hlimit
      rw [hquery] at h
      cases h
      obtain ⟨row, hrow, rfl⟩ := List.mem_map.mp ho
      have hmem := (hperm.mem_iff.mp (List.mem_of_mem_take hrow))
      exact List.mem_map_of_mem (List.mem_filter.mp hmem).1

theorem totalObjects_of_stats {stats : MemoryStats} (h : (a.stats io).1 = .ok stats) :
    stats.totalObjects = (a.stored io).length := by
  cases a with
  | file a =>
    rw [RetentionAdapter.stats] at h
    split at h
    · cases h
    · cases h
      rfl
  | inMemory a =>
    cases h
    rfl
  | sqlite rows =>
    replace h : tableStats io.table rows = .ok stats := h
    rw [tableStats] at h
    split at h
    · next count last hrun =>
      cases h
      cases hcount : io.table.count rows with
      | error cause =>
        rw [hcount] at hrun
        cases hrun
      | ok n =>
        cases hselect : io.table.select [] 1 rows with
        | error cause =>
          rw [hcount, hselect] at hrun
          cases hrun
        | ok found =>
          rw [hcount, hselect] at hrun
          cases hrun
          exact (io.table.count_ok hcount).trans (List.length_map _).symm
    · cases h

end RetentionAdapter

namespace MemoryStore

open RetentionAdapter

variable {io : RetentionIo} {options : RetentionOptions} {now : Nat} {a : RetentionAdapter}

/-! ### Expired objects -/

theorem expired_eq (httl : ¬options.ttlMs.le 0 = true) {cutoff : String}
    (hcutoff : JsDate.toISOString ((now : JsNumber) - options.ttlMs) = .ok cutoff)
    (o : MemoryObject) : expired options now o = !Text.le cutoff o.timestamp := by
  rw [expired, Bool.eq_false_iff.mpr httl, hcutoff]
  rfl

theorem evictExpired_same (io : RetentionIo) (options : RetentionOptions) (now : Nat)
    (a : RetentionAdapter) : Same io a (evictExpired io options now a).2 := by
  rw [evictExpired]
  split
  · exact .refl io a
  · split
    · exact .refl io a
    · dsimp only
      split
      · exact same_query io _ a
      · split
        · exact (same_query io _ a).trans (same_query io _ _)
        · exact (same_query io _ a).trans (same_query io _ _)

/-- Nothing is expired if the call throws. -/
theorem not_expired_of_error {cause : String} (h : (evictExpired io options now a).1 = .error cause)
    (o : MemoryObject) : expired options now o = false := by
  rw [evictExpired] at h
  split at h
  · cases h
  · split at h
    · next hcutoff => rw [expired, hcutoff, Bool.and_false]
    · dsimp only at h
      split at h
      · cases h
      · split at h <;> cases h

/-- Where nothing is expired nothing is reported. -/
theorem evictExpired_eq_zero (hnone : ∀ o ∈ a.stored io, expired options now o = false) {k : Nat}
    (h : (evictExpired io options now a).1 = .ok k) : k = 0 := by
  rw [evictExpired] at h
  split at h
  · cases h
    rfl
  · next httl =>
    split at h
    · cases h
    · next cutoff hcutoff =>
      dsimp only at h
      split at h
      · cases h
        rfl
      · split at h
        · cases h
          rfl
        · next objects hobjects =>
          cases h
          refine List.countP_eq_zero.mpr fun o ho => ?_
          have hstored := mem_stored_of_query hobjects ho
          rw [(same_query io _ a).stored] at hstored
          rw [← expired_eq httl hcutoff, hnone o hstored]
          exact Bool.false_ne_true

theorem expiredGone_iff :
    ExpiredGone io options now a ↔ ∀ o ∈ a.stored io, expired options now o = false := by
  have hsame := evictExpired_same io options now a
  constructor
  · intro hgone o ho
    cases hreport : (evictExpired io options now a).1 with
    | error cause => exact not_expired_of_error hreport o
    | ok k =>
      obtain ⟨gone, hgone, -, hperm⟩ := hgone k hreport
      cases hsame.gone_iff.mp hgone
      have hfilter := List.filter_eq_nil_iff.mp hperm.nil_eq.symm
      exact Bool.eq_false_iff.mpr (hfilter o ho)
  · intro hnone k hreport
    refine ⟨[], hsame.gone_iff.mpr rfl, (evictExpired_eq_zero hnone hreport).symm, ?_⟩
    rw [List.filter_eq_nil_iff.mpr fun o ho => Bool.eq_false_iff.mp (hnone o ho)]

/-! ### Objects beyond the limit -/

theorem evictOverflow_same (io : RetentionIo) (options : RetentionOptions) (a : RetentionAdapter) :
    Same io a (evictOverflow io options a).2 := by
  rw [evictOverflow]
  split
  · exact .refl io a
  · dsimp only
    split
    · exact same_stats io a
    · split
      · exact same_stats io a
      · split
        · exact (same_stats io a).trans (same_query io _ _)
        · exact (same_stats io a).trans (same_query io _ _)

/-- The objects that a query returns for the limit NaN, which is none but for the table. -/
def returnedForNaN (io : RetentionIo) : RetentionAdapter → List MemoryObject
  | .file a => match (a.load io.disk).loadError with
    | none => (a.load io.disk).objects
    | some _ => []
  | .inMemory a => a.objects
  | .sqlite _ => []

theorem evictOverflow_nan (h : options.maxEntries = .nan) :
    (evictOverflow io options a).1 = (returnedForNaN io a).length := by
  have hexcess (n : Nat) : (n : JsNumber) - options.maxEntries = .nan := by
    rw [h]
    rfl
  have hall (objects : List MemoryObject) :
      (AdapterQuery.fileResults io.localeCompare { limit := some .nan } objects).length =
        objects.length := by
    have hselects : objects.filter (MemoryQuery.selects {}) = objects :=
      List.filter_eq_self.mpr fun _ _ => rfl
    simp [AdapterQuery.fileResults, AdapterQuery.fileLimit, MemoryQuery.results,
      AdapterQuery.filters, hselects]
  have hle : JsNumber.le .nan 0 = false := rfl
  rw [evictOverflow, if_neg (by rw [h]; exact Bool.false_ne_true)]
  simp only [hexcess, hle, Bool.false_eq_true, if_false]
  cases a with
  | file a =>
    have hload : (a.load io.disk).load io.disk = a.load io.disk :=
      ObjectAdapter.load_of_loaded (ObjectAdapter.loaded_load a io.disk) io.disk
    cases herror : (a.load io.disk).loadError with
    | some cause => simp only [RetentionAdapter.stats, returnedForNaN, herror, List.length_nil]
    | none =>
      simp only [RetentionAdapter.stats, RetentionAdapter.query, returnedForNaN, FileAdapter.find,
        hload, herror]
      exact hall _
  | inMemory a => exact hall a.objects
  | sqlite rows =>
    obtain ⟨cause, hquery⟩ := SqliteAdapter.query_eq_error io.table.toObservationSelect
      (q := { limit := some .nan }) rows rfl
    simp only [RetentionAdapter.stats, RetentionAdapter.query, returnedForNaN, hquery]
    split <;> rfl

/-- With nothing beyond the limit there is no excess. -/
theorem excess_le_zero {n : Nat} (hpos : ¬options.maxEntries.le 0 = true)
    (hnan : options.maxEntries ≠ .nan) (h : beyond options n = 0) :
    ((n : JsNumber) - options.maxEntries).le 0 = true := by
  rw [beyond] at h
  cases hmax : options.maxEntries with
  | finite limit =>
    simp only [hmax] at hpos h
    have hlimit : ¬limit ≤ 0 := fun hle => hpos (decide_eq_true hle)
    rw [if_neg hlimit] at h
    have hnonneg : 0 ≤ limit.floor := Rat.le_floor_iff.mpr (not_le.mp hlimit).le
    have hfloor : (n : Int) ≤ limit.floor := by omega
    have hle : (n : ℚ) ≤ limit := by exact_mod_cast Rat.le_floor_iff.mp hfloor
    have hfinite : (n : JsNumber) - .finite limit = .finite (n - limit) := JsNumber.finite_sub _ _
    rw [hfinite]
    exact decide_eq_true (sub_nonpos.mpr hle)
  | posInf => rfl
  | negInf =>
    rw [hmax] at hpos
    exact absurd rfl hpos
  | nan => exact absurd hmax hnan

/-- Where nothing is beyond the limit nothing is reported. -/
theorem evictOverflow_eq_zero (hnan : options.maxEntries ≠ .nan)
    (h : beyond options (a.stored io).length = 0) : (evictOverflow io options a).1 = 0 := by
  rw [evictOverflow]
  split
  · rfl
  · next hpos =>
    dsimp only
    split
    · rfl
    · next stats hstats =>
      rw [← totalObjects_of_stats hstats] at h
      rw [if_pos (excess_le_zero hpos hnan h)]

theorem overflowGone_iff :
    OverflowGone io options a ↔ beyond options (a.stored io).length = 0 ∧
      (options.maxEntries = .nan → returnedForNaN io a = []) := by
  have hsame := evictOverflow_same io options a
  constructor
  · rintro ⟨gone, hgone, hreport, hbeyond, -⟩
    cases hsame.gone_iff.mp hgone
    refine ⟨hbeyond.symm, fun hnan => List.length_eq_zero_iff.mp ?_⟩
    rw [← evictOverflow_nan hnan, ← hreport]
    rfl
  · rintro ⟨hbeyond, hnan⟩
    refine ⟨[], hsame.gone_iff.mpr rfl, ?_, hbeyond.symm, fun o ho => nomatch ho⟩
    by_cases h : options.maxEntries = .nan
    · rw [evictOverflow_nan h, hnan h]
    · exact (evictOverflow_eq_zero h hbeyond).symm

/-- What is reported is right exactly when there is nothing to evict. -/
theorem eviction_right_iff (io : RetentionIo) (options : RetentionOptions) (now : Nat)
    (a : RetentionAdapter) :
    (ExpiredGone io options now a ↔ ∀ o ∈ a.stored io, expired options now o = false) ∧
      (OverflowGone io options a ↔ beyond options (a.stored io).length = 0 ∧
        (options.maxEntries = .nan → returnedForNaN io a = [])) :=
  ⟨expiredGone_iff, overflowGone_iff⟩

/-- A file with an object that is a month old and one of the day. Each call reports an object, and
nothing changes. -/
theorem reported_objects_stay :
    let io : RetentionIo :=
      { localeCompare := compare, disk := .missing, table := .inMemory }
    let old := observation "a" "2024-01-01T00:00:00.000Z" none
    let new := observation "b" "2024-02-01T00:00:00.000Z" none
    let a := RetentionAdapter.file
      { filePath := "memory.json", objects := [old, new], loaded := true }
    let expiry : RetentionOptions := { ttlMs := 86400000 }
    let overflow : RetentionOptions := { maxEntries := 1 }
    evictExpired io expiry 1706788800000 a = (.ok 1, a) ∧ ¬ExpiredGone io expiry 1706788800000 a ∧
      evictOverflow io overflow a = (1, a) ∧ ¬OverflowGone io overflow a := by
  intro io old new a expiry overflow
  have hnewer : (compare new.timestamp old.timestamp).isLE = false := by decide
  have hexpired : expired expiry 1706788800000 old = true := by decide +kernel
  have hbeyond : beyond overflow 2 = 1 := by decide
  have hquery (q : AdapterQuery) :
      a.query io q = (.ok (q.fileResults compare [old, new]), a) := rfl
  refine ⟨?_, fun h => ?_, ?_, fun h => ?_⟩
  · have httl : ¬expiry.ttlMs.le 0 = true := by decide
    have hcutoff : JsDate.toISOString (((1706788800000 : Nat) : JsNumber) - expiry.ttlMs) =
        .ok "2024-01-31T12:00:00.000Z" := by decide +kernel
    have hall := AdapterQuery.fileResults_pair (n := 100000)
      (q := { limit := some ((100000 : Nat) : JsNumber) }) rfl (by decide) rfl rfl hnewer
    have hcount : [new, old].countP
        (fun o => !Text.le "2024-01-31T12:00:00.000Z" o.timestamp) = 1 := by decide
    rw [evictExpired, if_neg httl, hcutoff]
    simp only [hquery, hall]
    exact congrArg (fun k => (Except.ok k, a)) hcount
  · have hnone := expiredGone_iff.mp h old List.mem_cons_self
    rw [hexpired] at hnone
    cases hnone
  · have hmax : ¬overflow.maxEntries.le 0 = true := by decide
    have hexcess : ((objectStats [old, new]).totalObjects : JsNumber) - overflow.maxEntries =
        ((1 : Nat) : JsNumber) := by decide +kernel
    have hone := AdapterQuery.fileResults_pair (n := 1)
      (q := { limit := some ((1 : Nat) : JsNumber) }) rfl (by decide) rfl rfl hnewer
    have hstats : a.stats io = (.ok (objectStats [old, new]), a) := rfl
    have hpos : ¬JsNumber.le ((1 : Nat) : JsNumber) 0 = true := by decide
    rw [evictOverflow, if_neg hmax, hstats]
    simp only [hexcess]
    rw [if_neg hpos, hquery, hone]
    rfl
  · have hnone := (overflowGone_iff.mp h).1
    replace hnone : beyond overflow 2 = 0 := hnone
    rw [hbeyond] at hnone
    cases hnone

end MemoryStore

end KirkForge
