import KirkForge.MemoryPalace.ObjectAdapters
import KirkForge.MemoryPalace.SqliteAdapter

/-!
# The memory store

The part of `MemoryStore` (`memory-palace/src/store.ts`) that writes a run with its emissions and
queries these, over a stack of adapters: an adapter that holds objects or a database, and around it
any number of encrypting ones, `TenantEncryptionAdapter` and `EncryptedAdapter`.
-/

namespace KirkForge

/-- The functions that the store and its adapters call. -/
structure MemoryEnv where
  sha256Hex : String → String
  localeCompare : String → String → Ordering
  engine : SqliteEngine

/-- What a call of the store meets with: the clock, which is read once for each emission, and what
happens to its writes. -/
structure StoreIo extends ObjectIo where
  clock : Nat → String

/-! ### Stacks of adapters -/

inductive Wrapper
  | tenantEncryption | encrypted
  deriving DecidableEq

inductive Adapter (engine : SqliteEngine)
  | object (a : ObjectAdapter)
  | sqlite (db : engine.Db)
  | wrapped (w : Wrapper) (inner : Adapter engine)

namespace Adapter

variable {engine : SqliteEngine}

/-- The database at the bottom of the stack, if it is one. -/
def database : Adapter engine → Option engine.Db
  | object _ => none
  | sqlite db => some db
  | wrapped _ inner => inner.database

/-! The optional calls `adapter.writeRunAndEmissions?.`, `adapter.queryRuns?.` and
`adapter.queryEmissionsForRun?.`. Either wrapper has all of these methods, and each of them makes
the same call of the inner adapter. -/

def callWriteRunAndEmissions (run : RunRow) (emissions : List EmissionRow) :
    Adapter engine → Except String Unit × Adapter engine
  | object a => (.ok (), object a)
  | sqlite db => (SqliteAdapter.writeRunAndEmissions run emissions db).map id sqlite
  | wrapped w inner => (inner.callWriteRunAndEmissions run emissions).map id (wrapped w)

/-- A call that reads rows, of which there are none without the method. -/
def callRows {ρ : Type} (select : engine.Db → Except String (List ρ)) :
    Adapter engine → Except String (Option (List ρ))
  | object _ => .ok none
  | sqlite db => (select db).map some
  | wrapped _ inner => (inner.callRows select).map fun rows => some (rows.getD [])

def callQueryRuns (limit : Nat) : Adapter engine → Except String (Option (List RunColumns)) :=
  callRows (SqliteAdapter.queryRuns limit)

def callQueryEmissionsForRun (runId : String) :
    Adapter engine → Except String (Option (List EmissionColumns)) :=
  callRows (SqliteAdapter.queryEmissionsForRun runId)

/-- What is written by other means reaches the bottom of the stack as some object, which the
wrappers encrypt on its way. -/
def receive (io : ObjectIo) (obj : MemoryObject) : Adapter engine → Adapter engine
  | object a => object (a.write io 0 obj).2
  | sqlite db => sqlite (SqliteAdapter.write obj db).2
  | wrapped w inner => wrapped w (inner.receive io obj)

theorem database_callWriteRunAndEmissions (run : RunRow) (emissions : List EmissionRow)
    (adapter : Adapter engine) :
    (adapter.callWriteRunAndEmissions run emissions).2.database =
      adapter.database.map fun db => (SqliteAdapter.writeRunAndEmissions run emissions db).2 := by
  induction adapter with
  | object a => rfl
  | sqlite db => rfl
  | wrapped w inner ih => exact ih

theorem callWriteRunAndEmissions_fst {adapter : Adapter engine} {db : engine.Db}
    (h : adapter.database = some db) (run : RunRow) (emissions : List EmissionRow) :
    (adapter.callWriteRunAndEmissions run emissions).1 =
      (SqliteAdapter.writeRunAndEmissions run emissions db).1 := by
  induction adapter with
  | object a => exact nomatch h
  | sqlite db' =>
    cases h
    rfl
  | wrapped w inner ih => exact ih h

theorem callRows_database {ρ : Type} (select : engine.Db → Except String (List ρ))
    {adapter : Adapter engine} {db : engine.Db} (h : adapter.database = some db) :
    adapter.callRows select = (select db).map some := by
  induction adapter with
  | object a => exact nomatch h
  | sqlite db' =>
    cases h
    rfl
  | wrapped w inner ih =>
    rw [callRows, ih h]
    cases select db <;> rfl

theorem database_receive (io : ObjectIo) (obj : MemoryObject) (adapter : Adapter engine) :
    (adapter.receive io obj).database =
      adapter.database.map fun db => (SqliteAdapter.write obj db).2 := by
  induction adapter with
  | object a => rfl
  | sqlite db => rfl
  | wrapped w inner ih => exact ih

end Adapter

namespace MemoryStore

variable (env : MemoryEnv)

/-! ### Objects -/

/-- The properties of a run, in an object that is written and in one made of a row. -/
def runProperties (run : RunFields) (emissionCount emissionIds : JsValue) : JsMembers :=
  .cons "language" (.string run.language) <|
  .cons "taskFamily" (.optional run.taskFamily) <|
  .cons "mode" (.string run.mode) <|
  .cons "model" (.string run.model) <|
  .cons "providerKey" (.string run.providerKey) <|
  .cons "providerType" (.string run.providerType) <|
  .cons "baseUrl" (.optional run.baseUrl) <|
  .cons "outcome" (.string run.outcome) <|
  .cons "outcomeClass" (.string run.outcomeClass) <|
  .cons "routingLesson" (.string run.routingLesson) <|
  .cons "finalVerdict" (.string run.finalVerdict) <|
  .cons "sourceOfTruth" (.string run.sourceOfTruth) <|
  .cons "finalAction" (.string run.finalAction) <|
  .cons "tokens" (.number run.tokens) <|
  .cons "durationMs" (.number run.durationMs) <|
  .cons "turns" (.number run.turns) <|
  .cons "validatorDurationMs" (.number run.validatorDurationMs) <|
  .cons "verifierOverall" (.optional run.verifierOverall) <|
  .cons "filesEmitted" (.number run.filesEmitted) <|
  .cons "totalBytesEmitted" (.number run.totalBytesEmitted) <|
  .cons "emissionCount" emissionCount <|
  .cons "emissionIds" emissionIds .nil

/-- `rowToProperties` -/
def rowToProperties (row : RunColumns) : JsMembers :=
  runProperties row.toRunFields .undefined (.string row.emissionIds)

def runObject (run : RunRow) : MemoryObject where
  id := "run-" ++ run.runId
  kind := "run"
  taskId := run.taskId
  timestamp := run.timestamp
  description := run.description
  properties := runProperties run.toRunFields (.number run.emissionIds.length)
    (.ofStrings run.emissionIds)
  tags := ["run", run.outcomeClass, run.routingLesson]

def runRowObject (row : RunColumns) : MemoryObject where
  id := "run-" ++ row.runId
  kind := "run"
  taskId := row.taskId
  timestamp := row.timestamp
  description := row.description
  properties := rowToProperties row
  tags := ["run"]

def emissionId (runId : String) (turn : JsNumber) (i : Nat) (e : EmittedFileRecord) : String :=
  "emission-" ++ runId ++ "-t" ++ turn.text ++ "-" ++ toString i ++ "-" ++
    Text.sliceTo (env.sha256Hex e.path) 8 ++ "-" ++ Text.sliceTo e.sha256 8

def emissionObject (io : StoreIo) (runId taskId : String) (turn : JsNumber) (i : Nat)
    (e : EmittedFileRecord) : MemoryObject where
  id := emissionId env runId turn i e
  kind := "emission"
  taskId := taskId
  runId := some runId
  timestamp := io.clock i
  description := "Emitted: " ++ e.path
  properties :=
    .cons "runId" (.string runId) <|
    .cons "turn" (.number turn) <|
    .cons "path" (.string e.path) <|
    .cons "sha256" (.string e.sha256) <|
    .cons "bytes" (.number e.bytes) <|
    .cons "beforeHash" (.nullable e.beforeHash) <|
    .cons "existed" (.bool e.existed) .nil
  tags := ["emission", if e.existed then "overwrite" else "create"]

def emissionRowObject (row : EmissionColumns) : MemoryObject where
  id := row.id
  kind := "emission"
  taskId := row.taskId
  timestamp := row.timestamp
  description := "Emitted: " ++ row.path
  properties :=
    .cons "runId" (.string row.runId) <|
    .cons "path" (.string row.path) <|
    .cons "sha256" (.string row.sha256) <|
    .cons "bytes" (.number row.bytes) <|
    .cons "beforeHash" (.nullable row.beforeHash) <|
    .cons "existed" (.number row.existed) .nil
  tags := ["emission"]

/-! ### Writes -/

/-- The emissions from the `i`-th on, written to an adapter that holds objects. Such an adapter has
no `writeEmission`. -/
def writeEmissionRecords (io : StoreIo) (runId taskId : String) (turn : JsNumber) :
    Nat → List EmittedFileRecord → ObjectAdapter → Except String (List String) × ObjectAdapter
  | _, [], a => (.ok [], a)
  | i, e :: emissions, a =>
    let obj := emissionObject env io runId taskId turn i e
    match a.write io.toObjectIo i obj with
    | (.error cause, a) => (.error cause, a)
    | (.ok (), a) =>
      let rest := writeEmissionRecords io runId taskId turn (i + 1) emissions a
      (rest.1.map (obj.id :: ·), rest.2)

/-- The run, written to an adapter that holds objects as the `i`-th object of the call. Such an
adapter has no `writeRun`. -/
def writeRunRecord (io : StoreIo) (i : Nat) (run : RunRow) (a : ObjectAdapter) :
    Except String Unit × ObjectAdapter :=
  a.write io.toObjectIo i (runObject run)

def rowId (run : RunRow) (e : EmittedFileRecord) : String :=
  e.id.getD (run.runId ++ ":" ++ e.path ++ ":" ++ Text.sliceTo e.sha256 12)

def emissionRow (io : StoreIo) (run : RunRow) (turn : JsNumber) (i : Nat) (e : EmittedFileRecord) :
    EmissionRow where
  id := rowId run e
  runId := run.runId
  taskId := run.taskId
  turn := turn
  path := e.path
  sha256 := e.sha256
  bytes := e.bytes
  beforeHash := e.beforeHash
  existed := e.existed
  timestamp := e.timestamp.getD (io.clock i)

/-- The run with what is entered in it about its emissions. -/
def withEmissions (run : RunRow) (ids : List String) (emissions : List EmittedFileRecord) : RunRow :=
  { run with
    emissionIds := ids
    filesEmitted := emissions.length
    totalBytesEmitted := (emissions.map EmittedFileRecord.bytes).sum }

/-- The result, the run as it is afterwards and the adapter. -/
def writeRunAndEmissions (io : StoreIo) (run : RunRow) (emissions : List EmittedFileRecord)
    (turn : JsNumber) : Adapter env.engine → Except String Unit × RunRow × Adapter env.engine
  | .object a =>
    match writeEmissionRecords env io run.runId run.taskId turn 0 emissions a with
    | (.error cause, a) => (.error cause, run, .object a)
    | (.ok ids, a) =>
      let run := withEmissions run ids emissions
      let r := writeRunRecord io emissions.length run a
      (r.1, run, .object r.2)
  | adapter =>
    let run := withEmissions run (emissions.map (rowId run)) emissions
    match adapter.callWriteRunAndEmissions run (emissions.mapIdx (emissionRow io run turn)) with
    | (.ok (), adapter) => (.ok (), run, adapter)
    | (.error cause, adapter) =>
      (.error ("writeRunAndEmissions failed: " ++ cause), run, adapter)

/-! ### Queries -/

/-- The rows that an adapter has returned, as objects. -/
def rowObjects {ρ : Type} (method : String) (object : ρ → MemoryObject)
    (rows : Except String (Option (List ρ))) : Except String (List MemoryObject) :=
  match rows with
  | .ok rows => .ok ((rows.getD []).map object)
  | .error cause => .error (method ++ " failed: " ++ cause)

def queryRuns (disk : DiskFile) (limit : Option Nat) :
    Adapter env.engine → Except String (List MemoryObject) × Adapter env.engine
  | .object a =>
    (a.query env.localeCompare disk
      { kind := some "run", limit := some (limit.getD 50) }).map id .object
  | adapter => (rowObjects "queryRuns" runRowObject (adapter.callQueryRuns (limit.getD 50)), adapter)

def queryEmissionsForRun (disk : DiskFile) (runId : String) :
    Adapter env.engine → Except String (List MemoryObject) × Adapter env.engine
  | .object a =>
    (a.query env.localeCompare disk { kind := some "emission", limit := some 1000 }).map
      (Except.map (List.filter fun o => (o.properties.get "runId").isString runId)) .object
  | adapter =>
    (rowObjects "queryEmissionsForRun" emissionRowObject (adapter.callQueryEmissionsForRun runId),
      adapter)

theorem rowObjects_eq_ok {ρ : Type} {method : String} {object : ρ → MemoryObject}
    {rows : Except String (List ρ)} {objects : List MemoryObject}
    (h : rowObjects method object (rows.map some) = .ok objects) :
    ∃ found, rows = .ok found ∧ objects = found.map object := by
  cases rows with
  | error cause => exact nomatch h
  | ok found => exact ⟨found, rfl, (Except.ok.inj h).symm⟩

end MemoryStore

end KirkForge
