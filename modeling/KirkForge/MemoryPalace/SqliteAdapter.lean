import KirkForge.MemoryPalace.Types
import KirkForge.Theory.Table
import KirkForge.Theory.Transaction

/-!
# The SQLite adapter

`SqliteAdapter` (`memory-palace/src/sqlite-adapter.ts`) over a database that executes its
statements. Of the tables, `runs` and `emissions` are read again here. The database itself is a
parameter.
-/

namespace KirkForge

open Transaction (Statement Content Lawful)

/-- A row of the table `runs`, with the ids as JSON. -/
structure RunColumns extends RunFields where
  emissionIds : String
  deriving DecidableEq

/-- A row of the table `emissions`. -/
structure EmissionColumns where
  id : String
  runId : String
  taskId : String
  turn : JsNumber
  path : String
  sha256 : String
  bytes : JsNumber
  beforeHash : Option String
  existed : JsNumber
  timestamp : String
  deriving DecidableEq

structure SqlTables where
  runs : List RunColumns := []
  emissions : List EmissionColumns := []

/-- What an `INSERT OR REPLACE` makes of a number in a column that is not null and has the default
0: NaN is bound as null. -/
def JsNumber.stored : JsNumber → JsNumber
  | .nan => 0
  | x => x

theorem JsNumber.stored_of_ne {x : JsNumber} (h : x ≠ .nan) : x.stored = x := by
  cases x with
  | nan => exact absurd rfl h
  | _ => rfl

def RunColumns.stored (run : RunColumns) : RunColumns :=
  { run with
    tokens := run.tokens.stored
    durationMs := run.durationMs.stored
    turns := run.turns.stored
    validatorDurationMs := run.validatorDurationMs.stored
    filesEmitted := run.filesEmitted.stored
    totalBytesEmitted := run.totalBytesEmitted.stored }

def EmissionColumns.stored (emission : EmissionColumns) : EmissionColumns :=
  { emission with
    turn := emission.turn.stored
    bytes := emission.bytes.stored
    existed := emission.existed.stored }

/-- The prepared statements that change a table. -/
inductive SqlChange
  | insertObs (obj : MemoryObject)
  | insertRun (run : RunColumns)
  | insertEmission (emission : EmissionColumns)
  | deleteEmissionsByRun (runId : String)

def SqlChange.apply : SqlChange → SqlTables → SqlTables
  | insertObs _, tables => tables
  | insertRun run, tables =>
    { tables with runs := Table.put (fun r : RunColumns => r.runId) run.stored tables.runs }
  | insertEmission emission, tables =>
    { tables with emissions := Table.put EmissionColumns.id emission.stored tables.emissions }
  | deleteEmissionsByRun runId, tables =>
    { tables with emissions := tables.emissions.filter fun e => e.runId ≠ runId }

/-- A database, with what it holds. A statement that throws gives its error. -/
structure SqliteEngine where
  Db : Type
  content : Db → Content SqlTables
  exec : Statement SqlChange → Db → Option String × Db
  /-- `SELECT * FROM runs ORDER BY timestamp DESC LIMIT ?` -/
  selectRuns : Nat → Db → Except String (List RunColumns)
  /-- `SELECT * FROM emissions WHERE run_id = ? ORDER BY path` -/
  selectEmissions : String → Db → Except String (List EmissionColumns)

/-- What SQLite documents of the statements in use. -/
structure SqliteEngine.Documented (engine : SqliteEngine) : Prop
    extends Lawful SqlChange.apply engine.content engine.exec where
  selectRuns : ∀ limit db rows, engine.selectRuns limit db = .ok rows →
    (engine.content db).current.runs.length ≤ limit → rows.Perm (engine.content db).current.runs
  selectEmissions : ∀ runId db rows, engine.selectEmissions runId db = .ok rows →
    rows.Perm ((engine.content db).current.emissions.filter fun e => e.runId = runId)

/-- Texts in the order of their code points, which is that of their bytes. -/
def binaryLe (s t : String) : Bool :=
  !Text.codesLt (t.toList.map Char.toNat) (s.toList.map Char.toNat)

/-- A database in memory, on which nothing fails but for the transactions. -/
def SqliteEngine.inMemory : SqliteEngine where
  Db := Content SqlTables
  content := id
  exec
    | .begin, db =>
      if db.saved.isSome then (some "cannot start a transaction within a transaction", db)
      else (none, Transaction.effect SqlChange.apply .begin db)
    | .change x, db => (none, Transaction.effect SqlChange.apply (.change x) db)
    | .commit, db =>
      if db.saved.isSome then (none, Transaction.effect SqlChange.apply .commit db)
      else (some "cannot commit - no transaction is active", db)
    | .rollback, db =>
      if db.saved.isSome then (none, Transaction.effect SqlChange.apply .rollback db)
      else (some "cannot rollback - no transaction is active", db)
  selectRuns limit db :=
    .ok ((db.current.runs.mergeSort fun a b => binaryLe b.timestamp a.timestamp).take limit)
  selectEmissions runId db :=
    .ok ((db.current.emissions.filter fun e => e.runId = runId).mergeSort fun a b =>
      binaryLe a.path b.path)

theorem SqliteEngine.inMemory_documented : inMemory.Documented where
  succeeds s db hok := by
    cases s with
    | change x => rfl
    | _ =>
      simp only [inMemory] at hok ⊢
      split at hok <;> simp_all
      rfl
  fails s db hfails := by
    cases s with
    | change x => exact absurd rfl hfails
    | _ =>
      simp only [inMemory] at hfails ⊢
      split at hfails <;> simp_all
  rollback_fails db hfails := by
    simp only [inMemory] at hfails
    split at hfails
    · exact absurd rfl hfails
    · next hnone => exact Option.not_isSome_iff_eq_none.mp hnone
  selectRuns limit db rows hrows hlimit := by
    cases hrows
    rw [List.take_of_length_le (by rwa [List.length_mergeSort])]
    exact List.mergeSort_perm _ _
  selectEmissions runId db rows hrows := by
    cases hrows
    exact List.mergeSort_perm _ _

namespace SqliteAdapter

variable {engine : SqliteEngine}

def write (obj : MemoryObject) (db : engine.Db) : Except String Unit × engine.Db :=
  match engine.exec (.change (.insertObs obj)) db with
  | (none, db) => (.ok (), db)
  | (some cause, db) => (.error ("SqliteAdapter write failed: " ++ cause), db)

/-- `JSON.stringify` of the ids. -/
def idsText (ids : List String) : String :=
  String.ofList (JsValue.stringify (.arr (ids.map Json.str)))

def runColumns (run : RunRow) : RunColumns := { run with emissionIds := idsText run.emissionIds }

def writeRun (run : RunRow) : SqlChange := .insertRun (runColumns run)

def emissionColumns (emission : EmissionRow) : EmissionColumns :=
  { emission with existed := if emission.existed then 1 else 0 }

def writeEmission (emission : EmissionRow) : SqlChange := .insertEmission (emissionColumns emission)

/-- The run, in one transaction with its emissions, which take the place of those of an earlier
write of the run. -/
def writeRunAndEmissions (run : RunRow) (emissions : List EmissionRow) (db : engine.Db) :
    Except String Unit × engine.Db :=
  match Transaction.transaction engine.exec
    (writeRun run :: .deleteEmissionsByRun run.runId :: emissions.map writeEmission) db with
  | (none, db) => (.ok (), db)
  | (some cause, db) => (.error cause, db)

def queryRuns (limit : Nat) (db : engine.Db) : Except String (List RunColumns) :=
  engine.selectRuns limit db

def queryEmissionsForRun (runId : String) (db : engine.Db) : Except String (List EmissionColumns) :=
  engine.selectEmissions runId db

/-- The tables after a write of a run. -/
def tablesAfter (run : RunRow) (emissions : List EmissionRow) (tables : SqlTables) : SqlTables where
  runs := Table.put (fun r : RunColumns => r.runId) (runColumns run).stored tables.runs
  emissions := (emissions.map fun e => (emissionColumns e).stored).foldl
    (fun rows row => Table.put EmissionColumns.id row rows)
    (tables.emissions.filter fun e => e.runId ≠ run.runId)

theorem foldl_writeEmission (emissions : List EmissionRow) (tables : SqlTables) :
    (emissions.map writeEmission).foldl (fun t x => SqlChange.apply x t) tables =
      { tables with
        emissions := (emissions.map fun e => (emissionColumns e).stored).foldl
          (fun rows row => Table.put EmissionColumns.id row rows) tables.emissions } := by
  induction emissions generalizing tables with
  | nil => rfl
  | cons e emissions ih =>
    rw [List.map_cons, List.foldl_cons, ih]
    rfl

/-- A run is written with its emissions or not at all. -/
theorem writeRunAndEmissions_cases (h : engine.Documented) (run : RunRow)
    (emissions : List EmissionRow) {db : engine.Db} {tables : SqlTables}
    (hdb : engine.content db = ⟨tables, none⟩) :
    (writeRunAndEmissions run emissions db).1 = .ok () ∧
        engine.content (writeRunAndEmissions run emissions db).2 =
          ⟨tablesAfter run emissions tables, none⟩ ∨
      (∃ cause, (writeRunAndEmissions run emissions db).1 = .error cause) ∧
        engine.content (writeRunAndEmissions run emissions db).2 = ⟨tables, none⟩ := by
  have hatomic := h.transaction_atomic
    (writeRun run :: .deleteEmissionsByRun run.runId :: emissions.map writeEmission) hdb
  unfold writeRunAndEmissions
  split
  · next db' htransaction =>
    rw [htransaction] at hatomic
    refine .inl ⟨rfl, hatomic.trans ?_⟩
    rw [List.foldl_cons, List.foldl_cons, foldl_writeEmission]
    rfl
  · next cause db' htransaction =>
    rw [htransaction] at hatomic
    exact .inr ⟨⟨cause, rfl⟩, hatomic⟩

theorem content_write (h : engine.Documented) (obj : MemoryObject) {db : engine.Db}
    (hdb : (engine.content db).saved = none) :
    engine.content (write obj db).2 = engine.content db := by
  have hdb' : (write obj db).2 = (engine.exec (.change (.insertObs obj)) db).2 := by
    unfold write
    split <;> simp_all
  rw [hdb']
  by_cases hok : (engine.exec (.change (.insertObs obj)) db).1 = none
  · exact h.succeeds _ db hok
  · exact h.content_of_fails hok hdb

end SqliteAdapter

end KirkForge
