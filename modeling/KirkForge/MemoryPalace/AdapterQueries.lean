import KirkForge.MemoryPalace.ObjectAdapters
import KirkForge.MemoryPalace.SqliteAdapter
import KirkForge.Theory.JsonText
import KirkForge.Theory.View

/-!
# Queries of the two adapters

`query` of `FileAdapter` (`memory-palace/src/adapters/file.ts`) and of `SqliteAdapter`
(`memory-palace/src/sqlite-adapter.ts`), for a limit that is any number, and the rows of the table
`observations`. Of SQLite the statement in use is a parameter with what SQLite documents of it.
-/

namespace KirkForge

/-- A `MemoryQuery` with its limit as a number. -/
structure AdapterQuery where
  kind : Option String := none
  tags : Option (List String) := none
  limit : Option JsNumber := none
  since : Option String := none

/-! ### The file adapter -/

/-- Where `list.slice(0, x)` ends. -/
def sliceEnd (length : Nat) : JsNumber → Nat
  | .finite x =>
    let whole : Int := if 0 ≤ x then x.floor else x.ceil
    if 0 ≤ whole then min whole.toNat length else (length + whole).toNat
  | .posInf => length
  | .negInf | .nan => 0

theorem JsNumber.natCast_eq_zero_or_nan {n : Nat} :
    ((n : JsNumber) = 0 ∨ (n : JsNumber) = .nan) ↔ n = 0 := by
  rw [or_iff_left (JsNumber.natCast_ne_nan n)]
  refine ⟨fun h => ?_, fun h => by rw [h]; rfl⟩
  have hq : ((n : ℚ)) = ((0 : Nat) : ℚ) := JsNumber.finite.inj h
  exact_mod_cast hq

theorem sliceEnd_natCast (length n : Nat) : sliceEnd length (n : JsNumber) = min n length := by
  show (let whole : Int := if 0 ≤ (n : ℚ) then (n : ℚ).floor else (n : ℚ).ceil
    if 0 ≤ whole then min whole.toNat length else (length + whole).toNat) = min n length
  have hfloor : (n : ℚ).floor = (n : Int) := Rat.floor_intCast n
  simp [hfloor]

namespace AdapterQuery

/-- The filters of a query, which do not depend on the limit. -/
def filters (q : AdapterQuery) : MemoryQuery where
  kind := q.kind
  tags := q.tags
  since := q.since

/-- How many of so many objects the `FileAdapter` returns. A limit of 0 or NaN is none. -/
def fileLimit (q : AdapterQuery) (length : Nat) : Nat :=
  match q.limit with
  | some x => if x = 0 ∨ x = .nan then length else sliceEnd length x
  | none => length

def fileResults (localeCompare : String → String → Ordering) (q : AdapterQuery)
    (objects : List MemoryObject) : List MemoryObject :=
  let results := q.filters.results localeCompare objects
  results.take (q.fileLimit results.length)

/-- For a limit that counts it is the query of before. -/
theorem fileResults_ofMemoryQuery (localeCompare : String → String → Ordering) (q : MemoryQuery)
    (objects : List MemoryObject) :
    fileResults localeCompare
        { kind := q.kind, tags := q.tags, limit := q.limit.map (↑), since := q.since } objects =
      q.results localeCompare objects := by
  obtain ⟨kind, tags, limit, since⟩ := q
  cases limit with
  | none => exact List.take_length
  | some n =>
    simp only [fileResults, fileLimit, MemoryQuery.results, Option.map_some,
      JsNumber.natCast_eq_zero_or_nan]
    split
    · exact List.take_length
    · rw [sliceEnd_natCast, ← List.take_eq_take_min]
      rfl

theorem mergeSort_pair {α : Type} {le : α → α → Bool} {a b : α} (h : le a b = false) :
    [a, b].mergeSort le = [b, a] := by
  simp [List.mergeSort, List.MergeSort.Internal.splitInTwo, h]

/-- Of two objects that pass the newer one comes first. -/
theorem fileResults_pair {q : AdapterQuery} {localeCompare : String → String → Ordering}
    {a b : MemoryObject} {n : Nat} (hlimit : q.limit = some (n : JsNumber)) (hn : n ≠ 0)
    (ha : q.filters.selects a = true) (hb : q.filters.selects b = true)
    (hnewer : (localeCompare b.timestamp a.timestamp).isLE = false) :
    q.fileResults localeCompare [a, b] = [b, a].take n := by
  have hsome : ¬((n : JsNumber) = 0 ∨ (n : JsNumber) = .nan) := by
    rwa [JsNumber.natCast_eq_zero_or_nan]
  have hfilter : [a, b].filter q.filters.selects = [a, b] := by
    simp [ha, hb]
  have hresults : q.filters.results localeCompare [a, b] = [b, a] := by
    show ([a, b].filter q.filters.selects).mergeSort _ = [b, a]
    rw [hfilter, mergeSort_pair hnewer]
  rw [fileResults, hresults, fileLimit, hlimit]
  dsimp only
  rw [if_neg hsome, sliceEnd_natCast, ← List.take_eq_take_min]

end AdapterQuery

def FileAdapter.find (localeCompare : String → String → Ordering) (disk : DiskFile)
    (q : AdapterQuery) (a : FileAdapter) : Except String (List MemoryObject) × FileAdapter :=
  let a := a.load disk
  match a.loadError with
  | some cause => (.error cause, a)
  | none => (.ok (q.fileResults localeCompare a.objects), a)

/-! ### The table of observations -/

/-- A row of the table `observations`. The text of the properties is only parsed again, so it is the
JSON here. -/
structure ObservationRow where
  id : String
  kind : String
  taskId : String
  timestamp : String
  description : String
  properties : Json
  tags : String

/-- A condition of the `WHERE` clause with its parameter. -/
inductive SqlCondition
  /-- `kind = ?` -/
  | kindIs (kind : String)
  /-- `timestamp >= ?` -/
  | timestampFrom (since : String)
  /-- `tags LIKE ?` -/
  | tagsLike (pattern : List Char)

/-- `LIKE`: `%` stands for any text and `_` for any character, and the case of the letters of ASCII
does not matter. -/
def like : List Char → List Char → Bool
  | [], text => text.isEmpty
  | c :: pattern, text =>
    if c = '%' then text.tails.any (like pattern)
    else match text with
      | [] => false
      | d :: rest => (c = '_' || c.toLower = d.toLower) && like pattern rest

def SqlCondition.holds (row : ObservationRow) : SqlCondition → Bool
  | kindIs kind => row.kind = kind
  | timestampFrom since => binaryLe since row.timestamp
  | tagsLike pattern => like pattern row.tags.toList

/-- What `LIMIT ?` makes of a number: an integer of 64 bits, of which a negative one is no limit. No
other number is accepted. -/
def sqlLimit : JsNumber → Option (Option Nat)
  | .finite x =>
    if x.den = 1 ∧ -2 ^ 63 ≤ x.num ∧ x.num < 2 ^ 63 then
      some (if x.num < 0 then none else some x.num.toNat)
    else none
  | _ => none

/-- `SELECT * FROM observations WHERE .. ORDER BY timestamp DESC LIMIT ?` as SQLite documents it:
which of two rows with one timestamp comes first is left open. -/
structure ObservationSelect where
  select : List SqlCondition → JsNumber → List ObservationRow →
    Except String (List ObservationRow)
  limited {conditions limit rows n} : sqlLimit limit = some n → ∃ sorted : List ObservationRow,
    sorted.Perm (rows.filter fun r => conditions.all (·.holds r)) ∧
      sorted.Pairwise (fun a b => binaryLe b.timestamp a.timestamp = true) ∧
      select conditions limit rows = .ok (sorted.take (n.getD sorted.length))
  mismatch {conditions limit rows} : sqlLimit limit = none →
    ∃ cause, select conditions limit rows = .error cause

theorem binaryLe_total (s t : String) : (binaryLe s t || binaryLe t s) = true := by
  rw [Bool.or_eq_true, binaryLe, binaryLe, Bool.not_eq_true', Bool.not_eq_true']
  cases h : Text.codesLt (t.toList.map Char.toNat) (s.toList.map Char.toNat) with
  | false => exact .inl rfl
  | true => exact .inr (Text.codesLt_asymm h)

theorem binaryLe_trans {s t u : String} (h : binaryLe s t = true) (h' : binaryLe t u = true) :
    binaryLe s u = true := by
  rw [binaryLe, Bool.not_eq_true'] at h h' ⊢
  exact Text.codesLt_trans_false h h'

theorem binaryLe_antisymm {s t : String} (h : binaryLe s t = true) (h' : binaryLe t s = true) :
    s = t := by
  rw [binaryLe, Bool.not_eq_true'] at h h'
  have hcodes := Text.eq_of_not_codesLt h h'
  exact String.toList_inj.mp (List.map_injective_iff.mpr (fun _ _ => Char.toNat_inj.mp) hcodes.symm)

/-- A statement that sorts the rows anew each time. -/
def ObservationSelect.inMemory : ObservationSelect where
  select conditions limit rows :=
    match sqlLimit limit with
    | some n =>
      let sorted := (rows.filter fun r => conditions.all (·.holds r)).mergeSort fun a b =>
        binaryLe b.timestamp a.timestamp
      .ok (sorted.take (n.getD sorted.length))
    | none => .error "datatype mismatch"
  limited {conditions limit rows n} h := by
    refine ⟨_, List.mergeSort_perm _ _, List.pairwise_mergeSort (fun a b c hab hbc => ?_)
      (fun a b => binaryLe_total ..) _, ?_⟩
    · exact binaryLe_trans hbc hab
    · rw [h]
  mismatch h := ⟨_, by rw [h]⟩

namespace SqliteAdapter

def observationRow (obj : MemoryObject) : ObservationRow where
  id := obj.id
  kind := obj.kind
  taskId := obj.taskId
  timestamp := obj.timestamp
  description := obj.description
  properties := .obj (JsValue.membersToJson obj.properties)
  tags := idsText obj.tags

/-- The table after a `write`. -/
def writeObservation (rows : List ObservationRow) (obj : MemoryObject) : List ObservationRow :=
  Table.put ObservationRow.id (observationRow obj) rows

/-- The tags of a row. -/
def parseTags (tags : String) : List String :=
  match Json.parse tags with
  | some (.arr items) => items.filterMap Json.str?
  | _ => []

def rowToObject (row : ObservationRow) : MemoryObject where
  id := row.id
  kind := row.kind
  taskId := row.taskId
  timestamp := row.timestamp
  description := row.description
  properties :=
    match row.properties with
    | .obj fields => JsValue.ofFields fields
    | _ => .nil
  tags := parseTags row.tags

/-- The text between the wildcards is not escaped. -/
def tagPattern (tag : String) : List Char := '%' :: '"' :: tag.toList ++ ['"', '%']

def conditions (q : AdapterQuery) : List SqlCondition :=
  ((q.kind.filter (· ≠ "")).map .kindIs).toList ++
    ((q.since.filter (· ≠ "")).map .timestampFrom).toList ++
      (q.tags.getD []).map fun tag => .tagsLike (tagPattern tag)

/-- Whether the row of an object passes: of the tags all are looked for, and the time is compared by
bytes. -/
def selects (q : AdapterQuery) (o : MemoryObject) : Bool :=
  q.kind.all (fun kind => kind = "" || o.kind = kind) &&
    (q.tags.getD []).all (fun tag => like (tagPattern tag) (idsText o.tags).toList) &&
    q.since.all fun since => since = "" || binaryLe since o.timestamp

theorem conditions_all (q : AdapterQuery) (o : MemoryObject) :
    ((conditions q).all fun c => c.holds (observationRow o)) = selects q o := by
  have hkind : ((q.kind.filter (· ≠ "")).map SqlCondition.kindIs).toList.all
      (fun c => c.holds (observationRow o)) = q.kind.all fun kind => kind = "" || o.kind = kind := by
    cases q.kind with
    | none => rfl
    | some kind =>
      by_cases h : kind = ""
      · simp [h, Option.filter]
      · simp only [Option.filter, h, ne_eq, not_false_eq_true, decide_true, if_true, decide_false,
          Option.map_some, Option.toList_some, List.all_cons, List.all_nil, Bool.and_true,
          Option.all_some, Bool.false_or]
        rfl
  have hsince : ((q.since.filter (· ≠ "")).map SqlCondition.timestampFrom).toList.all
      (fun c => c.holds (observationRow o)) =
        q.since.all fun since => since = "" || binaryLe since o.timestamp := by
    cases q.since with
    | none => rfl
    | some since =>
      by_cases h : since = ""
      · simp [h, Option.filter]
      · simp [h, Option.filter, SqlCondition.holds, observationRow]
  rw [conditions, List.all_append, List.all_append, hkind, hsince, List.all_map, selects,
    Bool.and_assoc, Bool.and_assoc, Bool.and_comm (q.since.all _)]
  rfl

def query (engine : ObservationSelect) (q : AdapterQuery) (rows : List ObservationRow) :
    Except String (List MemoryObject) :=
  match engine.select (conditions q) (q.limit.getD 1000) rows with
  | .ok rows => .ok (rows.map rowToObject)
  | .error cause => .error ("SqliteAdapter query failed: " ++ cause)

/-- A limit that SQLite accepts gives the latest of the rows that pass. -/
theorem query_eq_ok (engine : ObservationSelect) {q : AdapterQuery} (rows : List ObservationRow)
    {n : Option Nat} (h : sqlLimit (q.limit.getD 1000) = some n) :
    ∃ sorted : List ObservationRow,
      sorted.Perm (rows.filter fun r => (conditions q).all (·.holds r)) ∧
      sorted.Pairwise (fun a b => binaryLe b.timestamp a.timestamp = true) ∧
      query engine q rows = .ok ((sorted.take (n.getD sorted.length)).map rowToObject) := by
  obtain ⟨sorted, hperm, hsorted, hselect⟩ :=
    @ObservationSelect.limited engine (conditions q) _ rows _ h
  exact ⟨sorted, hperm, hsorted, by rw [query, hselect]⟩

theorem query_eq_error (engine : ObservationSelect) {q : AdapterQuery}
    (rows : List ObservationRow) (h : sqlLimit (q.limit.getD 1000) = none) :
    ∃ cause, query engine q rows = .error cause := by
  obtain ⟨cause, hcause⟩ := @ObservationSelect.mismatch engine (conditions q) _ rows h
  exact ⟨_, by rw [query, hcause]⟩

/-! ### What a row keeps -/

theorem itemsWellFormed_map_str (tags : List String) :
    Json.ItemsWellFormed (tags.map Json.str) := by
  induction tags with
  | nil => trivial
  | cons tag tags ih => exact ⟨trivial, ih⟩

theorem parseTags_idsText (tags : List String) : parseTags (idsText tags) = tags := by
  have hparse := Json.parse_stringify (j := .arr (tags.map .str)) (itemsWellFormed_map_str tags)
  rw [parseTags, idsText, hparse]
  show (tags.map Json.str).filterMap Json.str? = tags
  rw [List.filterMap_map]
  exact List.filterMap_some

/-- What is read back lacks the run and has properties of JSON. -/
theorem rowToObject_observationRow (obj : MemoryObject) :
    rowToObject (observationRow obj) =
      { obj with
        runId := none
        properties := JsValue.ofFields (JsValue.membersToJson obj.properties) } := by
  simp only [rowToObject, observationRow, parseTags_idsText]

theorem runId_of_query {engine : ObservationSelect} {q : AdapterQuery}
    {rows : List ObservationRow} {list : List MemoryObject} (h : query engine q rows = .ok list) :
    ∀ o ∈ list, o.runId = none := by
  rw [query] at h
  split at h
  · cases h
    intro o ho
    obtain ⟨row, -, rfl⟩ := List.mem_map.mp ho
    rfl
  · cases h

end SqliteAdapter

end KirkForge
