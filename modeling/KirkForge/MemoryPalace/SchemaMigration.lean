import KirkForge.Theory.JsNumber
import KirkForge.Theory.OrderedMap
import KirkForge.Theory.Run
import KirkForge.Theory.Transaction

/-!
# Opening a database

`_initSchema`, `_runMigrations` and `_prepareStatements` of the SQLite adapter
(`memory-palace/src/sqlite-adapter.ts`): what opening or restoring a database file does to its
tables, whichever version of the adapter wrote it. Any statement may fail, and the process may end
anywhere.
-/

namespace KirkForge

open Script (Fate Entry)

inductive SqlCell
  | null
  | number (x : JsNumber)
  | text (s : String)
  deriving DecidableEq

/-- A column as it is declared, and the value that the declaration gives to rows without one. -/
structure SqlColumn where
  name : String
  decl : String
  dflt : SqlCell := .null
  deriving DecidableEq

/-- A table, each of whose rows has a value for every column. -/
structure SqlTable where
  columns : List SqlColumn
  rows : List (List SqlCell)
  aligned : ∀ row ∈ rows, row.length = columns.length

namespace SqlTable

def names (t : SqlTable) : List String := t.columns.map SqlColumn.name

def create (columns : List SqlColumn) : SqlTable := ⟨columns, [], List.forall_mem_nil _⟩

def addColumn (t : SqlTable) (column : SqlColumn) : SqlTable where
  columns := t.columns ++ [column]
  rows := t.rows.map (· ++ [column.dflt])
  aligned := by
    refine List.forall_mem_map.mpr fun row hrow => ?_
    rw [List.length_append, List.length_append, t.aligned row hrow, List.length_singleton,
      List.length_singleton]

end SqlTable

structure SqlIndex where
  name : String
  table : String
  column : String
  deriving DecidableEq

/-- A database file: the tables and indexes of the adapter, and the rows of `schema_migrations` if
there is this table, each with its time. -/
structure SqlFile where
  tables : OrderedMap String SqlTable := ∅
  indexes : List SqlIndex := []
  migrations : Option (List (Int × String)) := none

namespace SqlFile

/-- `PRAGMA table_info(table)` -/
def tableInfo (db : SqlFile) (table : String) : List String :=
  ((db.tables.get? table).map SqlTable.names).getD []

def addColumn (table : String) (column : SqlColumn) (db : SqlFile) : Option SqlFile :=
  match db.tables.get? table with
  | none => none
  | some t =>
    if column.name ∈ t.names then none
    else some { db with tables := db.tables.set table (t.addColumn column) }

def versions (db : SqlFile) : List Int := (db.migrations.getD []).map Prod.fst

def insertVersion (version : Int) (time : String) (db : SqlFile) : Option SqlFile :=
  match db.migrations with
  | none => none
  | some rows =>
    if version ∈ rows.map Prod.fst then none
    else some { db with migrations := some (rows ++ [(version, time)]) }

end SqlFile

inductive SchemaStatement
  | pragma (text : String)
  /-- `CREATE TABLE IF NOT EXISTS` -/
  | createTable (name : String) (columns : List SqlColumn)
  /-- `CREATE INDEX IF NOT EXISTS` -/
  | createIndex (index : SqlIndex)
  | addColumn (table : String) (column : SqlColumn)
  /-- `CREATE TABLE IF NOT EXISTS schema_migrations` -/
  | createMigrations
  deriving DecidableEq

def SchemaStatement.exec : SchemaStatement → SqlFile → Option SqlFile
  | pragma _, db => some db
  | createTable name columns, db =>
    if db.tables.has name then some db
    else some { db with tables := db.tables.set name (SqlTable.create columns) }
  | createIndex index, db =>
    if index.name ∈ db.indexes.map SqlIndex.name then some db
    else if index.column ∈ db.tableInfo index.table then
      some { db with indexes := db.indexes ++ [index] }
    else none
  | addColumn table column, db => db.addColumn table column
  | createMigrations, db => some { db with migrations := some (db.migrations.getD []) }

namespace SqliteAdapter

def SCHEMA_VERSION : Int := 3

def OBSERVATIONS : List SqlColumn :=
  [{ name := "id", decl := "TEXT PRIMARY KEY" },
    { name := "kind", decl := "TEXT NOT NULL" },
    { name := "task_id", decl := "TEXT NOT NULL" },
    { name := "timestamp", decl := "TEXT NOT NULL" },
    { name := "description", decl := "TEXT NOT NULL" },
    { name := "properties", decl := "TEXT NOT NULL" },
    { name := "tags", decl := "TEXT NOT NULL" }]

def RUNS : List SqlColumn :=
  [{ name := "run_id", decl := "TEXT PRIMARY KEY" },
    { name := "task_id", decl := "TEXT NOT NULL" },
    { name := "description", decl := "TEXT NOT NULL" },
    { name := "language", decl := "TEXT NOT NULL" },
    { name := "task_family", decl := "TEXT" },
    { name := "mode", decl := "TEXT NOT NULL" },
    { name := "model", decl := "TEXT NOT NULL" },
    { name := "provider_key", decl := "TEXT NOT NULL DEFAULT ''", dflt := .text "" },
    { name := "provider_type", decl := "TEXT NOT NULL DEFAULT ''", dflt := .text "" },
    { name := "base_url", decl := "TEXT" },
    { name := "outcome", decl := "TEXT NOT NULL" },
    { name := "outcome_class", decl := "TEXT NOT NULL" },
    { name := "routing_lesson", decl := "TEXT NOT NULL DEFAULT 'neutral'", dflt := .text "neutral" },
    { name := "final_verdict", decl := "TEXT NOT NULL" },
    { name := "source_of_truth", decl := "TEXT NOT NULL" },
    { name := "final_action", decl := "TEXT NOT NULL" },
    { name := "tokens", decl := "INTEGER NOT NULL DEFAULT 0", dflt := .number 0 },
    { name := "duration_ms", decl := "INTEGER NOT NULL DEFAULT 0", dflt := .number 0 },
    { name := "turns", decl := "INTEGER NOT NULL DEFAULT 0", dflt := .number 0 },
    { name := "validator_duration_ms", decl := "INTEGER NOT NULL DEFAULT 0", dflt := .number 0 },
    { name := "verifier_overall", decl := "TEXT" },
    { name := "files_emitted", decl := "INTEGER NOT NULL DEFAULT 0", dflt := .number 0 },
    { name := "total_bytes_emitted", decl := "INTEGER NOT NULL DEFAULT 0", dflt := .number 0 },
    { name := "emission_ids", decl := "TEXT NOT NULL DEFAULT '[]'", dflt := .text "[]" },
    { name := "timestamp", decl := "TEXT NOT NULL" }]

def EMISSIONS : List SqlColumn :=
  [{ name := "id", decl := "TEXT PRIMARY KEY" },
    { name := "run_id", decl := "TEXT NOT NULL" },
    { name := "task_id", decl := "TEXT NOT NULL" },
    { name := "turn", decl := "INTEGER NOT NULL DEFAULT 0", dflt := .number 0 },
    { name := "path", decl := "TEXT NOT NULL" },
    { name := "sha256", decl := "TEXT NOT NULL" },
    { name := "bytes", decl := "INTEGER NOT NULL DEFAULT 0", dflt := .number 0 },
    { name := "before_hash", decl := "TEXT" },
    { name := "existed", decl := "INTEGER NOT NULL DEFAULT 0", dflt := .number 0 },
    { name := "timestamp", decl := "TEXT NOT NULL" }]

/-- The statements of `_initSchema` up to the version. -/
def SCHEMA : List (Entry SchemaStatement) :=
  [⟨.pragma "journal_mode=WAL", false⟩,
    ⟨.pragma "busy_timeout=5000", false⟩,
    ⟨.createTable "observations" OBSERVATIONS, false⟩,
    ⟨.createIndex ⟨"idx_obs_kind", "observations", "kind"⟩, false⟩,
    ⟨.createIndex ⟨"idx_obs_task_id", "observations", "task_id"⟩, false⟩,
    ⟨.createIndex ⟨"idx_obs_timestamp", "observations", "timestamp"⟩, false⟩,
    ⟨.createIndex ⟨"idx_obs_tags", "observations", "tags"⟩, false⟩,
    ⟨.createTable "runs" RUNS, false⟩,
    ⟨.createIndex ⟨"idx_runs_task_id", "runs", "task_id"⟩, false⟩,
    ⟨.createIndex ⟨"idx_runs_model", "runs", "model"⟩, false⟩,
    ⟨.createIndex ⟨"idx_runs_outcome_class", "runs", "outcome_class"⟩, false⟩,
    ⟨.createIndex ⟨"idx_runs_timestamp", "runs", "timestamp"⟩, false⟩,
    ⟨.addColumn "runs"
      { name := "emission_ids", decl := "TEXT NOT NULL DEFAULT '[]'", dflt := .text "[]" }, true⟩,
    ⟨.createTable "emissions" EMISSIONS, false⟩,
    ⟨.createIndex ⟨"idx_emissions_task_id", "emissions", "task_id"⟩, false⟩,
    ⟨.createIndex ⟨"idx_emissions_run_id", "emissions", "run_id"⟩, false⟩,
    ⟨.addColumn "emissions"
      { name := "turn", decl := "INTEGER NOT NULL DEFAULT 0", dflt := .number 0 }, true⟩,
    ⟨.createMigrations, false⟩]

/-- An entry of `MIGRATIONS`, whose `up` adds a column. -/
structure Migration where
  version : Int
  description : String
  table : String
  column : SqlColumn

def Migration.up (m : Migration) (db : SqlFile) : Option SqlFile :=
  if m.column.name ∈ db.tableInfo m.table then some db else db.addColumn m.table m.column

def MIGRATIONS : List Migration :=
  [{ version := 2, description := "Add outcome_reason column to runs", table := "runs",
      column := { name := "outcome_reason", decl := "TEXT" } },
    { version := 3, description := "Add routing_bias column to observations",
      table := "observations", column := { name := "routing_bias", decl := "TEXT" } }]

/-- The columns that the statements of `_prepareStatements` name. -/
def STATEMENTS : List (String × List String) :=
  [("observations", ["id", "kind", "task_id", "timestamp", "description", "properties", "tags"]),
    ("runs", ["run_id", "task_id", "description", "language", "task_family", "mode", "model",
      "provider_key", "provider_type", "base_url", "outcome", "outcome_class", "routing_lesson",
      "final_verdict", "source_of_truth", "final_action", "tokens", "duration_ms", "turns",
      "validator_duration_ms", "verifier_overall", "files_emitted", "total_bytes_emitted",
      "emission_ids", "timestamp"]),
    ("emissions", ["id", "run_id", "task_id", "turn", "path", "sha256", "bytes", "before_hash",
      "existed", "timestamp"])]

/-- One call of the constructor, or of `restore` from the copied file on: what becomes of each
statement, and the times that go with the versions. -/
structure Attempt where
  fate : Nat → Fate := fun _ => .executed
  appliedAt : Int → String

/-- What one migration does in the transaction of all pending ones. -/
def migrate (a : Attempt) (db : SqlFile) (m : Migration) : Option SqlFile :=
  (m.up db).bind (SqlFile.insertVersion m.version (a.appliedAt m.version))

/-- The transaction is statement `n`: it makes all of its changes or none. -/
def runMigrations (a : Attempt) (n : Nat) (fromVersion : Int) (db : SqlFile) : Bool × SqlFile :=
  let pending := MIGRATIONS.filter fun m => fromVersion < m.version
  if pending = [] then (true, db)
  else
    match if a.fate n = .executed then pending.foldlM (migrate a) db else none with
    | some db => (true, db)
    | none => (false, db)

/-- `_initSchema` from the version on. -/
def runVersions (a : Attempt) (db : SqlFile) : Bool × SqlFile :=
  if a.fate SCHEMA.length ≠ .executed ∨ db.migrations = none then (false, db)
  else
    let currentVersion := db.versions.max?.getD 0
    if currentVersion = 0 then
      let seeded := if a.fate (SCHEMA.length + 1) = .executed then
        db.insertVersion 1 (a.appliedAt 1) else none
      match seeded with
      | some db => runMigrations a (SCHEMA.length + 2) 1 db
      | none => (false, db)
    else runMigrations a (SCHEMA.length + 2) currentVersion db

def initSchema (a : Attempt) (db : SqlFile) : Bool × SqlFile :=
  match Script.run SchemaStatement.exec a.fate 0 SCHEMA db with
  | (true, db) => runVersions a db
  | (false, db) => (false, db)

def prepareStatements (a : Attempt) (db : SqlFile) : Bool :=
  a.fate (SCHEMA.length + 3) = .executed &&
    STATEMENTS.all fun (table, columns) => columns.all (db.tableInfo table).contains

/-- Whether the adapter is there to be used, and the file that is left. -/
def openFile (a : Attempt) (db : SqlFile) : Bool × SqlFile :=
  match initSchema a db with
  | (true, db) => (prepareStatements a db, db)
  | (false, db) => (false, db)

/-! ### What is kept and what is reached -/

end SqliteAdapter

/-- Columns are only added, and the rows keep their values. -/
def SqlTable.Grows (t t' : SqlTable) : Prop :=
  ∃ added : List SqlColumn, t'.columns = t.columns ++ added ∧
    t'.rows = t.rows.map (· ++ added.map SqlColumn.dflt)

/-- Nothing is lost: new tables are empty, and indexes and versions are only added. -/
structure SqlFile.Extends (db db' : SqlFile) : Prop where
  tables : ∀ name t, db.tables.get? name = some t →
    ∃ t', db'.tables.get? name = some t' ∧ t.Grows t'
  new : ∀ name t', db.tables.get? name = none → db'.tables.get? name = some t' → t'.rows = []
  indexes : db.indexes <+: db'.indexes
  migrations : ∀ rows, db.migrations = some rows →
    ∃ added, db'.migrations = some (rows ++ added)

/-- What a statement is there for. -/
def SchemaStatement.Done : SchemaStatement → SqlFile → Prop
  | pragma _, _ => True
  | createTable name _, db => db.tables.has name = true
  | createIndex index, db => index.name ∈ db.indexes.map SqlIndex.name
  | addColumn table column, db => column.name ∈ db.tableInfo table
  | createMigrations, db => db.migrations.isSome = true

namespace SqliteAdapter

def Migration.Applied (m : Migration) (db : SqlFile) : Prop := m.column.name ∈ db.tableInfo m.table

/-- The columns that are added to tables of earlier versions. -/
def ADDED : List (String × String) := SCHEMA.filterMap fun e =>
  match e.statement with
  | .addColumn table column => some (table, column.name)
  | _ => none

/-- The tables have the columns that they had in every version, and a version is recorded only with
its migration applied. -/
structure Legacy (db : SqlFile) : Prop where
  columns : ∀ p ∈ STATEMENTS, db.tables.has p.1 = true →
    ∀ c ∈ p.2, (p.1, c) ∉ ADDED → c ∈ db.tableInfo p.1
  honest : ∀ m ∈ MIGRATIONS, ∀ v ∈ db.versions, m.version ≤ v → m.Applied db

/-- The tables, columns and indexes of the current version are there, and the version is
recorded. -/
structure Complete (db : SqlFile) : Prop where
  schema : ∀ e ∈ SCHEMA, e.statement.Done db
  migrations : ∀ m ∈ MIGRATIONS, m.Applied db
  version : ∃ v ∈ db.versions, SCHEMA_VERSION ≤ v
  prepared : ∀ p ∈ STATEMENTS, ∀ c ∈ p.2, c ∈ db.tableInfo p.1

end SqliteAdapter

/-! ### One statement -/

theorem SqlTable.Grows.refl (t : SqlTable) : t.Grows t :=
  ⟨[], (List.append_nil _).symm, by simp⟩

theorem SqlTable.Grows.trans {t u v : SqlTable} (h : t.Grows u) (h' : u.Grows v) : t.Grows v := by
  obtain ⟨added, hcolumns, hrows⟩ := h
  obtain ⟨added', hcolumns', hrows'⟩ := h'
  refine ⟨added ++ added', by rw [hcolumns', hcolumns, List.append_assoc], ?_⟩
  rw [hrows', hrows, List.map_map]
  apply List.map_congr_left
  intro row _
  simp

theorem SqlTable.grows_addColumn (t : SqlTable) (column : SqlColumn) : t.Grows (t.addColumn column) :=
  ⟨[column], rfl, rfl⟩

theorem SqlTable.Grows.names {t t' : SqlTable} (h : t.Grows t') : t.names <+: t'.names := by
  obtain ⟨added, hcolumns, -⟩ := h
  rw [SqlTable.names, SqlTable.names, hcolumns, List.map_append]
  exact List.prefix_append _ _

namespace SqlFile

variable {db db' : SqlFile}

theorem Extends.refl (db : SqlFile) : db.Extends db where
  tables name t ht := ⟨t, ht, .refl t⟩
  new name t' hnone ht' := by
    rw [hnone] at ht'
    cases ht'
  indexes := List.prefix_rfl
  migrations rows hrows := ⟨[], by rw [hrows, List.append_nil]⟩

theorem Extends.trans {db'' : SqlFile} (h : db.Extends db') (h' : db'.Extends db'') :
    db.Extends db'' where
  tables name t ht := by
    obtain ⟨t', ht', hgrows⟩ := h.tables name t ht
    obtain ⟨t'', ht'', hgrows'⟩ := h'.tables name t' ht'
    exact ⟨t'', ht'', hgrows.trans hgrows'⟩
  new name t'' hnone ht'' := by
    cases hmiddle : db'.tables.get? name with
    | none => exact h'.new name t'' hmiddle ht''
    | some t' =>
      obtain ⟨u, hu, added, -, hrows⟩ := h'.tables name t' hmiddle
      obtain rfl := Option.some.inj (hu.symm.trans ht'')
      rw [hrows, h.new name t' hnone hmiddle, List.map_nil]
  indexes := h.indexes.trans h'.indexes
  migrations rows hrows := by
    obtain ⟨added, hadded⟩ := h.migrations rows hrows
    obtain ⟨added', hadded'⟩ := h'.migrations _ hadded
    exact ⟨added ++ added', by rw [hadded', List.append_assoc]⟩

theorem Extends.has (h : db.Extends db') {name : String} (hname : db.tables.has name = true) :
    db'.tables.has name = true := by
  obtain ⟨t, ht⟩ := Option.isSome_iff_exists.mp hname
  obtain ⟨t', ht', -⟩ := h.tables name t ht
  exact Option.isSome_iff_exists.mpr ⟨t', ht'⟩

theorem Extends.mem_tableInfo (h : db.Extends db') {table column : String}
    (hcolumn : column ∈ db.tableInfo table) : column ∈ db'.tableInfo table := by
  rw [tableInfo] at hcolumn ⊢
  cases ht : db.tables.get? table with
  | none =>
    rw [ht] at hcolumn
    cases hcolumn
  | some t =>
    rw [ht] at hcolumn
    obtain ⟨t', ht', hgrows⟩ := h.tables table t ht
    rw [ht']
    exact hgrows.names.subset hcolumn

theorem Extends.mem_versions (h : db.Extends db') {v : Int} (hv : v ∈ db.versions) :
    v ∈ db'.versions := by
  rw [versions] at hv ⊢
  cases hrows : db.migrations with
  | none =>
    rw [hrows] at hv
    cases hv
  | some rows =>
    obtain ⟨added, hadded⟩ := h.migrations rows hrows
    rw [hrows] at hv
    rw [hadded, Option.getD_some, List.map_append]
    exact List.mem_append_left _ hv

theorem Extends.isSome_migrations (h : db.Extends db') (hsome : db.migrations.isSome = true) :
    db'.migrations.isSome = true := by
  obtain ⟨rows, hrows⟩ := Option.isSome_iff_exists.mp hsome
  obtain ⟨added, hadded⟩ := h.migrations rows hrows
  rw [hadded, Option.isSome_some]

theorem addColumn_eq_some {table : String} {column : SqlColumn} :
    db.addColumn table column = some db' ↔ ∃ t, db.tables.get? table = some t ∧
      column.name ∉ t.names ∧ db' = { db with tables := db.tables.set table (t.addColumn column) } := by
  rw [addColumn]
  cases db.tables.get? table with
  | none => simp
  | some t => by_cases hcolumn : column.name ∈ t.names <;> simp [hcolumn, eq_comm]

theorem addColumn_spec {table : String} {column : SqlColumn}
    (h : db.addColumn table column = some db') : db.Extends db' ∧ column.name ∈ db'.tableInfo table ∧
      db'.migrations = db.migrations := by
  obtain ⟨t, ht, -, rfl⟩ := addColumn_eq_some.mp h
  refine ⟨⟨fun name u hu => ?_, fun name u hnone hu => ?_, List.prefix_rfl,
    (Extends.refl db).migrations⟩, ?_, rfl⟩
  · rw [OrderedMap.get?_set]
    split
    · next hname =>
      subst hname
      obtain rfl := Option.some.inj (ht.symm.trans hu)
      exact ⟨_, rfl, t.grows_addColumn column⟩
    · exact ⟨u, hu, .refl u⟩
  · dsimp only at hu
    rw [OrderedMap.get?_set] at hu
    split at hu
    · next hname =>
      subst hname
      rw [ht] at hnone
      cases hnone
    · rw [hnone] at hu
      cases hu
  · simp [tableInfo, SqlTable.names, SqlTable.addColumn]

theorem insertVersion_spec {version : Int} {time : String}
    (h : db.insertVersion version time = some db') : db.Extends db' ∧
      db'.versions = db.versions ++ [version] ∧ db'.tables = db.tables := by
  rw [insertVersion] at h
  cases hrows : db.migrations with
  | none =>
    rw [hrows] at h
    cases h
  | some rows =>
    simp only [hrows, Option.ite_none_left_eq_some, Option.some.injEq] at h
    obtain ⟨-, rfl⟩ := h
    refine ⟨⟨fun name t ht => ⟨t, ht, .refl t⟩, fun name t hnone ht => ?_, List.prefix_rfl, ?_⟩, ?_, rfl⟩
    · rw [hnone] at ht
      cases ht
    · intro rows' hrows'
      obtain rfl := Option.some.inj (hrows.symm.trans hrows')
      exact ⟨_, rfl⟩
    · simp [versions, hrows]

end SqlFile

namespace SchemaStatement

variable {db db' : SqlFile}

theorem grows_createTable {name : String} {columns : List SqlColumn}
    (hnone : db.tables.get? name = none) :
    db.Extends { db with tables := db.tables.set name (SqlTable.create columns) } where
  tables name' t ht := by
    have hname : name ≠ name' := by
      rintro rfl
      rw [hnone] at ht
      cases ht
    exact ⟨t, by rwa [OrderedMap.get?_set_of_ne _ hname], .refl t⟩
  new name' t hnone' ht := by
    dsimp only at ht
    rw [OrderedMap.get?_set] at ht
    split at ht
    · obtain rfl := Option.some.inj ht
      rfl
    · rw [hnone'] at ht
      cases ht
  indexes := List.prefix_rfl
  migrations := (SqlFile.Extends.refl db).migrations

theorem exec_spec {statement : SchemaStatement} (h : statement.exec db = some db') :
    db.Extends db' ∧ statement.Done db' ∧ db'.versions = db.versions := by
  cases statement with
  | pragma text =>
    obtain rfl := Option.some.inj h
    exact ⟨.refl db, trivial, rfl⟩
  | createTable name columns =>
    rw [exec] at h
    split at h
    · next hname =>
      obtain rfl := Option.some.inj h
      exact ⟨.refl db, hname, rfl⟩
    · next hname =>
      obtain rfl := Option.some.inj h
      refine ⟨grows_createTable (Option.not_isSome_iff_eq_none.mp hname), ?_, rfl⟩
      simp [Done, OrderedMap.has]
  | createIndex index =>
    rw [exec] at h
    split at h
    · next hname =>
      obtain rfl := Option.some.inj h
      exact ⟨.refl db, hname, rfl⟩
    · obtain ⟨-, h⟩ := Option.ite_none_right_eq_some.mp h
      obtain rfl := Option.some.inj h
      have hsame := SqlFile.Extends.refl db
      refine ⟨⟨hsame.tables, hsame.new, ?_, hsame.migrations⟩, ?_, rfl⟩
      · exact List.prefix_append _ _
      · simp [Done]
  | addColumn table column =>
    obtain ⟨hextends, hcolumn, hmigrations⟩ := SqlFile.addColumn_spec h
    exact ⟨hextends, hcolumn, by rw [SqlFile.versions, SqlFile.versions, hmigrations]⟩
  | createMigrations =>
    obtain rfl := Option.some.inj h
    have hsame := SqlFile.Extends.refl db
    refine ⟨⟨hsame.tables, hsame.new, List.prefix_rfl, fun rows hrows => ⟨[], ?_⟩⟩, rfl, rfl⟩
    rw [hrows, List.append_nil]
    rfl

theorem Done.mono {statement : SchemaStatement} (h : statement.Done db) (hextends : db.Extends db') :
    statement.Done db' := by
  cases statement with
  | pragma text => trivial
  | createTable name columns => exact hextends.has h
  | createIndex index => exact (hextends.indexes.map SqlIndex.name).subset h
  | addColumn table column => exact hextends.mem_tableInfo h
  | createMigrations => exact hextends.isSome_migrations h

theorem done_of_exec (statement : SchemaStatement) (db db' : SqlFile)
    (h : statement.exec db = some db') : statement.Done db' := (exec_spec h).2.1

theorem Done.exec (statement : SchemaStatement) (db : SqlFile) (h : statement.Done db)
    (other : SchemaStatement) (db' : SqlFile) (hexec : other.exec db = some db') :
    statement.Done db' := h.mono (exec_spec hexec).1

end SchemaStatement

namespace SqliteAdapter

open SchemaStatement

variable {db db' : SqlFile}

/-! ### The statements of the schema -/

/-- Only its own statement creates a table. -/
theorem exists_of_created {statement : SchemaStatement} (hexec : statement.exec db = some db')
    {name : String} (hbefore : ¬db.tables.has name = true) (hafter : db'.tables.has name = true) :
    ∃ columns, statement = .createTable name columns ∧
      db'.tableInfo name = columns.map SqlColumn.name := by
  cases statement with
  | pragma text =>
    obtain rfl := Option.some.inj hexec
    exact absurd hafter hbefore
  | createTable name' columns =>
    rw [SchemaStatement.exec] at hexec
    split at hexec
    · obtain rfl := Option.some.inj hexec
      exact absurd hafter hbefore
    · obtain rfl := Option.some.inj hexec
      by_cases hname : name' = name
      · subst hname
        exact ⟨columns, rfl, by simp [SqlFile.tableInfo, SqlTable.names, SqlTable.create]⟩
      · rw [OrderedMap.has, OrderedMap.get?_set_of_ne _ hname] at hafter
        exact absurd hafter hbefore
  | createIndex index =>
    rw [SchemaStatement.exec] at hexec
    split at hexec
    · obtain rfl := Option.some.inj hexec
      exact absurd hafter hbefore
    · obtain ⟨-, hexec⟩ := Option.ite_none_right_eq_some.mp hexec
      obtain rfl := Option.some.inj hexec
      exact absurd hafter hbefore
  | addColumn table column =>
    obtain ⟨t, ht, -, rfl⟩ := SqlFile.addColumn_eq_some.mp hexec
    by_cases hname : table = name
    · subst hname
      exact absurd (Option.isSome_iff_exists.mpr ⟨t, ht⟩) hbefore
    · rw [OrderedMap.has, OrderedMap.get?_set_of_ne _ hname] at hafter
      exact absurd hafter hbefore
  | createMigrations =>
    obtain rfl := Option.some.inj hexec
    exact absurd hafter hbefore

/-- The tables of the schema are created with all of their columns. -/
theorem mem_columns_of_createTable {name : String} {columns : List SqlColumn} {tolerated : Bool}
    (he : ⟨.createTable name columns, tolerated⟩ ∈ SCHEMA) {p : String × List String}
    (hp : p ∈ STATEMENTS) (hname : p.1 = name) {c : String} (hc : c ∈ p.2) :
    c ∈ columns.map SqlColumn.name := by
  have hall : (SCHEMA.all fun e => match e.statement with
      | .createTable name columns => STATEMENTS.all fun p =>
        p.1 ≠ name || p.2.all (columns.map SqlColumn.name).contains
      | _ => true) = true := by decide
  have hthis := List.all_eq_true.mp (List.all_eq_true.mp hall _ he) p hp
  simp only [hname, ne_eq, not_true_eq_false, decide_false, Bool.false_or] at hthis
  exact List.contains_iff_mem.mp (List.all_eq_true.mp hthis c hc)

theorem Legacy.exec (h : Legacy db) {e : Entry SchemaStatement} (he : e ∈ SCHEMA)
    (hexec : e.statement.exec db = some db') : Legacy db' := by
  obtain ⟨hextends, -, hversions⟩ := exec_spec hexec
  refine ⟨fun p hp hhas c hc hadded => ?_, fun m hm v hv hle => ?_⟩
  · by_cases hbefore : db.tables.has p.1 = true
    · exact hextends.mem_tableInfo (h.columns p hp hbefore c hc hadded)
    · obtain ⟨columns, hstatement, hinfo⟩ := exists_of_created hexec hbefore hhas
      obtain ⟨statement, tolerated⟩ := e
      obtain rfl := hstatement
      rw [hinfo]
      exact mem_columns_of_createTable he hp rfl hc
  · rw [hversions] at hv
    exact hextends.mem_tableInfo (h.honest m hm v hv hle)

def creates (table : String) (e : Entry SchemaStatement) : Bool :=
  match e.statement with
  | .createTable name _ => name = table
  | _ => false

/-- An index is created after its table and on one of the columns that this has in every version,
and a column is added, failure or not, to a table that is there. -/
def placed (front : List (Entry SchemaStatement)) (e : Entry SchemaStatement) : Bool :=
  match e.statement with
  | .createIndex index => front.any (creates index.table) && STATEMENTS.any fun p =>
    p.1 = index.table && p.2.contains index.column && !ADDED.contains (p.1, index.column)
  | .addColumn table _ => front.any (creates table) && e.tolerated
  | _ => true

theorem placed_of_eq {front back : List (Entry SchemaStatement)} {e : Entry SchemaStatement}
    (h : SCHEMA = front ++ e :: back) : placed front e = true := by
  have hall : ((List.range SCHEMA.length).all fun i =>
      SCHEMA[i]?.all (placed (SCHEMA.take i))) = true := by decide
  have hlength : front.length < SCHEMA.length := by
    rw [h, List.length_append, List.length_cons]
    omega
  have hthis := List.all_eq_true.mp hall front.length (List.mem_range.mpr hlength)
  have htake : SCHEMA.take front.length = front := by rw [h, List.take_left]
  have hget : SCHEMA[front.length]? = some e := by rw [h]; simp
  rwa [htake, hget] at hthis

theorem has_of_creates {front : List (Entry SchemaStatement)} {table : String}
    (h : front.any (creates table) = true) (hdone : ∀ e ∈ front, e.statement.Done db) :
    db.tables.has table = true := by
  obtain ⟨e, he, hcreates⟩ := List.any_eq_true.mp h
  have hthis := hdone e he
  obtain ⟨statement, tolerated⟩ := e
  cases statement with
  | createTable name columns =>
    obtain rfl : name = table := of_decide_eq_true hcreates
    exact hthis
  | pragma | createIndex | addColumn | createMigrations => cases hcreates

/-- A statement that fails of itself is one that has nothing left to do. -/
theorem done_of_exec_eq_none (h : Legacy db) {front back : List (Entry SchemaStatement)}
    {e : Entry SchemaStatement} (hschema : SCHEMA = front ++ e :: back)
    (hdone : ∀ e ∈ front, e.statement.Done db) (hexec : e.statement.exec db = none) :
    e.tolerated = true ∧ e.statement.Done db := by
  have hplaced := placed_of_eq hschema
  obtain ⟨statement, tolerated⟩ := e
  cases statement with
  | pragma text => cases hexec
  | createTable name columns =>
    rw [SchemaStatement.exec] at hexec
    split at hexec <;> cases hexec
  | createIndex index =>
    obtain ⟨hcreates, hany⟩ := Bool.and_eq_true_iff.mp hplaced
    obtain ⟨p, hp, hcolumn⟩ := List.any_eq_true.mp hany
    simp only [Bool.and_eq_true, decide_eq_true_eq, List.contains_iff_mem, Bool.not_eq_true',
      ← Bool.not_eq_true] at hcolumn
    obtain ⟨⟨htable, hcolumn⟩, hadded⟩ := hcolumn
    have hhas := has_of_creates hcreates hdone
    rw [← htable] at hhas
    have hinfo := h.columns p hp hhas index.column hcolumn hadded
    rw [htable] at hinfo
    rw [SchemaStatement.exec, if_pos hinfo] at hexec
    split at hexec <;> cases hexec
  | addColumn table column =>
    obtain ⟨hcreates, htolerated⟩ := Bool.and_eq_true_iff.mp hplaced
    have hhas := has_of_creates hcreates hdone
    obtain ⟨t, ht⟩ := Option.isSome_iff_exists.mp hhas
    refine ⟨htolerated, ?_⟩
    have hexec : db.addColumn table column = none := hexec
    simp only [SqlFile.addColumn, ht] at hexec
    have hmem : column.name ∈ t.names := by
      by_contra hnot
      rw [if_neg hnot] at hexec
      cases hexec
    simpa [Done, SqlFile.tableInfo, ht] using hmem
  | createMigrations => cases hexec

/-! ### The migrations -/

theorem has_of_has_addColumn {table : String} {column : SqlColumn}
    (h : db.addColumn table column = some db') {name : String}
    (hname : db'.tables.has name = true) : db.tables.has name = true := by
  obtain ⟨t, ht, -, rfl⟩ := SqlFile.addColumn_eq_some.mp h
  by_cases heq : table = name
  · subst heq
    exact Option.isSome_iff_exists.mpr ⟨t, ht⟩
  · rwa [OrderedMap.has, OrderedMap.get?_set_of_ne _ heq] at hname

/-- Migrations that are all applied. -/
structure Migrated (db db' : SqlFile) (ms : List Migration) : Prop where
  grows : db.Extends db'
  has : ∀ name, db'.tables.has name = true → db.tables.has name = true
  applied : ∀ m ∈ ms, m.Applied db'
  versions : db'.versions = db.versions ++ ms.map Migration.version

theorem migrated_nil (db : SqlFile) : Migrated db db [] :=
  ⟨.refl db, fun _ h => h, List.forall_mem_nil _, (List.append_nil _).symm⟩

theorem migrated_migrate {a : Attempt} {m : Migration} (h : migrate a db m = some db') :
    Migrated db db' [m] := by
  obtain ⟨middle, hup, hinsert⟩ := Option.bind_eq_some_iff.mp h
  obtain ⟨hextends, hversions, htables⟩ := SqlFile.insertVersion_spec hinsert
  have hhas (name : String) : db'.tables.has name = middle.tables.has name := by rw [htables]
  rw [Migration.up] at hup
  split at hup
  · next happlied =>
    obtain rfl := Option.some.inj hup
    refine ⟨hextends, fun name hname => hhas name ▸ hname, ?_, hversions⟩
    exact List.forall_mem_singleton.mpr (hextends.mem_tableInfo happlied)
  · obtain ⟨hadded, happlied, hmigrations⟩ := SqlFile.addColumn_spec hup
    refine ⟨hadded.trans hextends, fun name hname => ?_, ?_, ?_⟩
    · exact has_of_has_addColumn hup (hhas name ▸ hname)
    · exact List.forall_mem_singleton.mpr (hextends.mem_tableInfo happlied)
    · rw [hversions, SqlFile.versions, SqlFile.versions, hmigrations, List.map_singleton]

theorem migrated_foldlM {a : Attempt} {ms : List Migration}
    (h : ms.foldlM (migrate a) db = some db') : Migrated db db' ms := by
  induction ms generalizing db with
  | nil =>
    obtain rfl := Option.some.inj h
    exact migrated_nil db
  | cons m ms ih =>
    rw [List.foldlM_cons] at h
    obtain ⟨middle, hm, hms⟩ := Option.bind_eq_some_iff.mp h
    have hfirst := migrated_migrate hm
    have hrest := ih hms
    refine ⟨hfirst.grows.trans hrest.grows, fun name hname => ?_, ?_, ?_⟩
    · exact hfirst.has name (hrest.has name hname)
    · refine List.forall_mem_cons.mpr ⟨?_, hrest.applied⟩
      exact hrest.grows.mem_tableInfo (hfirst.applied m List.mem_cons_self)
    · rw [hrest.versions, hfirst.versions, List.append_assoc]
      rfl

theorem exists_up {m : Migration} (hhas : db.tables.has m.table = true) :
    ∃ db', m.up db = some db' ∧ db'.migrations = db.migrations := by
  rw [Migration.up]
  split
  · exact ⟨db, rfl, rfl⟩
  · next hnot =>
    obtain ⟨t, ht⟩ := Option.isSome_iff_exists.mp hhas
    have hnames : m.column.name ∉ t.names := by
      rwa [SqlFile.tableInfo, ht] at hnot
    exact ⟨_, SqlFile.addColumn_eq_some.mpr ⟨t, ht, hnames, rfl⟩, rfl⟩

theorem exists_insertVersion {version : Int} (time : String) (hsome : db.migrations.isSome = true)
    (hnew : ∀ v ∈ db.versions, v < version) :
    ∃ db', db.insertVersion version time = some db' := by
  obtain ⟨rows, hrows⟩ := Option.isSome_iff_exists.mp hsome
  rw [SqlFile.versions, hrows] at hnew
  have hnot : version ∉ rows.map Prod.fst := fun hmem => Int.lt_irrefl _ (hnew version hmem)
  rw [SqlFile.insertVersion, hrows]
  exact ⟨_, if_neg hnot⟩

/-- The migrations in order are all applied if their tables are there and none has been recorded. -/
theorem exists_foldlM {a : Attempt} {ms : List Migration}
    (hordered : ms.Pairwise fun m m' => m.version < m'.version)
    (hnew : ∀ m ∈ ms, ∀ v ∈ db.versions, v < m.version)
    (hsome : db.migrations.isSome = true) (hhas : ∀ m ∈ ms, db.tables.has m.table = true) :
    ∃ db', ms.foldlM (migrate a) db = some db' := by
  induction ms generalizing db with
  | nil => exact ⟨db, rfl⟩
  | cons m ms ih =>
    obtain ⟨hfirst, hordered⟩ := List.pairwise_cons.mp hordered
    obtain ⟨hm, hms⟩ := List.forall_mem_cons.mp hhas
    obtain ⟨hnewm, hnewms⟩ := List.forall_mem_cons.mp hnew
    obtain ⟨middle, hmiddle⟩ : ∃ middle, migrate a db m = some middle := by
      obtain ⟨added, hup, hmigrations⟩ := exists_up hm
      rw [migrate, hup]
      apply exists_insertVersion _ _ _
      · rwa [hmigrations]
      · rwa [SqlFile.versions, hmigrations]
    have hmigrated := migrated_migrate hmiddle
    have hextends := hmigrated.grows
    have hnew' : ∀ m' ∈ ms, ∀ v ∈ middle.versions, v < m'.version := by
      intro m' hm' v hv
      rw [hmigrated.versions] at hv
      obtain hv | hv := List.mem_append.mp hv
      · exact hnewms m' hm' v hv
      · obtain rfl := List.mem_singleton.mp hv
        exact hfirst m' hm'
    obtain ⟨db', hdb'⟩ := ih hordered hnew' (hextends.isSome_migrations hsome) fun m' hm' =>
      hextends.has (hms m' hm')
    refine ⟨db', ?_⟩
    rw [List.foldlM_cons, hmiddle]
    exact hdb'

/-- What is true of the file that a call leaves. -/
structure Sound (db : SqlFile) (r : Bool × SqlFile) : Prop where
  grows : db.Extends r.2
  legacy : Legacy r.2

theorem Sound.refl (h : Legacy db) (b : Bool) : Sound db (b, db) := ⟨.refl db, h⟩

/-- The file with all migrations applied and the version recorded. -/
structure UpToDate (db : SqlFile) : Prop where
  migrations : ∀ m ∈ MIGRATIONS, m.Applied db
  version : ∃ v ∈ db.versions, SCHEMA_VERSION ≤ v

theorem exists_latest : ∃ m ∈ MIGRATIONS, m.version = SCHEMA_VERSION :=
  ⟨_, List.mem_cons_of_mem _ List.mem_cons_self, rfl⟩

theorem runMigrations_spec (a : Attempt) (n : Nat) {fromVersion : Int} (h : Legacy db)
    (hfrom : fromVersion ∈ db.versions) :
    Sound db (runMigrations a n fromVersion db) ∧
      ((runMigrations a n fromVersion db).1 = true →
        UpToDate (runMigrations a n fromVersion db).2) := by
  have hold : ∀ m ∈ MIGRATIONS, m ∉ MIGRATIONS.filter (fun m => fromVersion < m.version) →
      m.Applied db := by
    intro m hm hnot
    apply h.honest m hm fromVersion hfrom
    by_contra hlt
    exact hnot (List.mem_filter.mpr ⟨hm, decide_eq_true (Int.not_le.mp hlt)⟩)
  rw [runMigrations]
  split
  · next hnone =>
    obtain ⟨m, hm, hversion⟩ := exists_latest
    refine ⟨.refl h true, fun _ => ⟨fun m hm => hold m hm ?_, fromVersion, hfrom, ?_⟩⟩
    · rw [hnone]
      exact List.not_mem_nil
    · have hnot := List.filter_eq_nil_iff.mp hnone m hm
      rw [hversion, decide_eq_true_eq] at hnot
      exact Int.not_lt.mp hnot
  · split
    · next db' hresult =>
      obtain ⟨-, hfold⟩ := Option.ite_none_right_eq_some.mp hresult
      have hmigrated := migrated_foldlM hfold
      have happlied : ∀ m ∈ MIGRATIONS, m.Applied db' := by
        intro m hm
        by_cases hpending : m ∈ MIGRATIONS.filter fun m => fromVersion < m.version
        · exact hmigrated.applied m hpending
        · exact hmigrated.grows.mem_tableInfo (hold m hm hpending)
      refine ⟨⟨hmigrated.grows, fun p hp hhas c hc hadded => ?_, fun m hm _ _ _ => happlied m hm⟩,
        fun _ => ⟨happlied, ?_⟩⟩
      · exact hmigrated.grows.mem_tableInfo (h.columns p hp (hmigrated.has p.1 hhas) c hc hadded)
      · by_cases hlt : fromVersion < SCHEMA_VERSION
        · obtain ⟨m, hm, hversion⟩ := exists_latest
          have hpending : m ∈ MIGRATIONS.filter fun m => fromVersion < m.version :=
            List.mem_filter.mpr ⟨hm, decide_eq_true (hversion ▸ hlt)⟩
          refine ⟨SCHEMA_VERSION, ?_, Int.le_refl _⟩
          rw [hmigrated.versions, ← hversion]
          exact List.mem_append_right _ (List.mem_map_of_mem hpending)
        · exact ⟨fromVersion, hmigrated.grows.mem_versions hfrom, Int.not_lt.mp hlt⟩
    · exact ⟨.refl h false, fun hfalse => nomatch hfalse⟩

theorem creates_of_migrations : ∀ m ∈ MIGRATIONS, SCHEMA.any (creates m.table) = true := by decide

theorem runMigrations_executed {a : Attempt} (ha : ∀ n, a.fate n = .executed) (n : Nat)
    {fromVersion : Int} (hmax : ∀ v ∈ db.versions, v ≤ fromVersion)
    (hdone : ∀ e ∈ SCHEMA, e.statement.Done db) : (runMigrations a n fromVersion db).1 = true := by
  have hordered : (MIGRATIONS.filter fun m => fromVersion < m.version).Pairwise fun m m' =>
      m.version < m'.version := by
    apply List.Pairwise.filter
    decide
  have hnew : ∀ m ∈ MIGRATIONS.filter (fun m => fromVersion < m.version), ∀ v ∈ db.versions,
      v < m.version := fun m hm v hv =>
    Int.lt_of_le_of_lt (hmax v hv) (of_decide_eq_true (List.mem_filter.mp hm).2)
  have hhas : ∀ m ∈ MIGRATIONS.filter (fun m => fromVersion < m.version),
      db.tables.has m.table = true := by
    intro m hm
    exact has_of_creates (creates_of_migrations m (List.mem_of_mem_filter hm)) hdone
  have hsome : db.migrations.isSome = true :=
    hdone ⟨.createMigrations, false⟩ (by decide)
  obtain ⟨db', hdb'⟩ := exists_foldlM (a := a) hordered hnew hsome hhas
  rw [runMigrations, ha n, if_pos rfl, hdb']
  split <;> rfl

/-! ### Opening -/

theorem run_schema_legacy (a : Attempt) (h : Legacy db) :
    Sound db (Script.run SchemaStatement.exec a.fate 0 SCHEMA db) where
  grows := Script.run_related SqlFile.Extends.refl (fun _ _ _ => .trans)
    (fun _ _ _ hexec => (exec_spec hexec).1) 0 SCHEMA db
  legacy := Script.run_invariant (fun _ he _ _ ht hexec => ht.exec he hexec) 0 h

theorem Sound.trans {middle : SqlFile} {b : Bool} {r : Bool × SqlFile}
    (h : Sound db (b, middle)) (h' : Sound middle r) : Sound db r :=
  ⟨h.grows.trans h'.grows, h'.legacy⟩

/-- The version that is read is one that is recorded, and none is greater. -/
theorem currentVersion_spec (hne : db.versions.max?.getD 0 ≠ 0) :
    db.versions.max?.getD 0 ∈ db.versions ∧ ∀ v ∈ db.versions, v ≤ db.versions.max?.getD 0 := by
  cases hmax : db.versions.max? with
  | none =>
    rw [hmax] at hne
    exact absurd rfl hne
  | some v => exact List.max?_eq_some_iff.mp hmax

theorem le_currentVersion {v : Int} (hzero : db.versions.max?.getD 0 = 0) (hv : v ∈ db.versions) :
    v ≤ 0 := by
  cases hmax : db.versions.max? with
  | none =>
    rw [List.max?_eq_none_iff.mp hmax] at hv
    cases hv
  | some w =>
    rw [hmax] at hzero
    obtain rfl : w = 0 := hzero
    exact (List.max?_eq_some_iff.mp hmax).2 v hv

theorem runVersions_spec (a : Attempt) (h : Legacy db) :
    Sound db (runVersions a db) ∧ ((runVersions a db).1 = true → UpToDate (runVersions a db).2) := by
  rw [runVersions]
  split
  · exact ⟨.refl h false, fun hfalse => nomatch hfalse⟩
  dsimp only
  split
  swap
  · next hne => exact runMigrations_spec a (SCHEMA.length + 2) h (currentVersion_spec hne).1
  next hzero =>
  split
  swap
  · exact ⟨.refl h false, fun hfalse => nomatch hfalse⟩
  next seeded hseeded =>
  obtain ⟨-, hinsert⟩ := Option.ite_none_right_eq_some.mp hseeded
  obtain ⟨hgrows, hversions, htables⟩ := SqlFile.insertVersion_spec hinsert
  have hlegacy : Legacy seeded := by
    refine ⟨fun p hp hhas c hc hadded => ?_, fun m hm v hv hle => ?_⟩
    · rw [htables] at hhas
      exact hgrows.mem_tableInfo (h.columns p hp hhas c hc hadded)
    · rw [hversions] at hv
      obtain hv | hv := List.mem_append.mp hv
      · exact hgrows.mem_tableInfo (h.honest m hm v hv hle)
      · obtain rfl := List.mem_singleton.mp hv
        have hlater : ∀ m ∈ MIGRATIONS, ¬m.version ≤ 1 := by decide
        exact absurd hle (hlater m hm)
  have hone : 1 ∈ seeded.versions := by
    rw [hversions]
    exact List.mem_append_right _ (List.mem_singleton.mpr rfl)
  have hmigrations := runMigrations_spec a (SCHEMA.length + 2) hlegacy hone
  exact ⟨⟨hgrows.trans hmigrations.1.grows, hmigrations.1.legacy⟩, hmigrations.2⟩

theorem runVersions_executed {a : Attempt} (ha : ∀ n, a.fate n = .executed)
    (hdone : ∀ e ∈ SCHEMA, e.statement.Done db) : (runVersions a db).1 = true := by
  have hsome : db.migrations.isSome = true := hdone ⟨.createMigrations, false⟩ (by decide)
  have hnone : ¬(a.fate SCHEMA.length ≠ .executed ∨ db.migrations = none) := by
    rintro (hfate | hnone)
    · exact hfate (ha _)
    · rw [hnone] at hsome
      cases hsome
  rw [runVersions, if_neg hnone]
  dsimp only
  split
  swap
  · next hne => exact runMigrations_executed ha _ (currentVersion_spec hne).2 hdone
  next hzero =>
  have hnew : ∀ v ∈ db.versions, v < 1 := fun v hv => by
    have hle := le_currentVersion hzero hv
    omega
  obtain ⟨seeded, hseeded⟩ := exists_insertVersion (a.appliedAt 1) hsome hnew
  obtain ⟨hgrows, hversions, -⟩ := SqlFile.insertVersion_spec hseeded
  rw [if_pos (ha _), hseeded]
  apply runMigrations_executed ha _ _ fun e he => (hdone e he).mono hgrows
  intro v hv
  rw [hversions] at hv
  obtain hv | hv := List.mem_append.mp hv
  · exact Int.le_of_lt (hnew v hv)
  · exact Int.le_of_eq (List.mem_singleton.mp hv)

/-- The columns whose addition may fail are named in the prepared statements. -/
def named (e : Entry SchemaStatement) : Bool :=
  match e.statement with
  | .addColumn table column => STATEMENTS.any fun p => p.1 = table && p.2.contains column.name
  | _ => !e.tolerated

theorem done_of_tolerated {e : Entry SchemaStatement} (he : e ∈ SCHEMA) (htolerated : e.tolerated = true)
    (hprepared : ∀ p ∈ STATEMENTS, ∀ c ∈ p.2, c ∈ db.tableInfo p.1) : e.statement.Done db := by
  have hall : ∀ e ∈ SCHEMA, named e = true := by decide
  have hnamed := hall e he
  obtain ⟨statement, tolerated⟩ := e
  obtain rfl : tolerated = true := htolerated
  cases statement with
  | addColumn table column =>
    obtain ⟨p, hp, hboth⟩ := List.any_eq_true.mp hnamed
    obtain ⟨htable, hcolumn⟩ := Bool.and_eq_true_iff.mp hboth
    rw [Done, ← of_decide_eq_true htable]
    exact hprepared p hp column.name (List.contains_iff_mem.mp hcolumn)
  | pragma | createTable | createIndex | createMigrations => cases hnamed

theorem prepareStatements_iff {a : Attempt} : prepareStatements a db = true ↔
    a.fate (SCHEMA.length + 3) = .executed ∧
      ∀ p ∈ STATEMENTS, ∀ c ∈ p.2, c ∈ db.tableInfo p.1 := by
  simp only [prepareStatements, Bool.and_eq_true, decide_eq_true_eq, List.all_eq_true,
    List.contains_iff_mem]

/-- An adapter that is there to be used has a complete database, whatever failed before. -/
theorem openFile_spec (a : Attempt) (h : Legacy db) :
    Sound db (openFile a db) ∧ ((openFile a db).1 = true → Complete (openFile a db).2) := by
  have hschema := run_schema_legacy a h
  have hgoals : (Script.run SchemaStatement.exec a.fate 0 SCHEMA db).1 = true →
      ∀ e ∈ SCHEMA, e.tolerated = false →
        e.statement.Done (Script.run SchemaStatement.exec a.fate 0 SCHEMA db).2 :=
    Script.run_goals done_of_exec Done.exec
  rw [openFile, initSchema]
  rcases hrun : Script.run SchemaStatement.exec a.fate 0 SCHEMA db with ⟨_ | _, db₁⟩
  · rw [hrun] at hschema
    exact ⟨hschema, fun hfalse => nomatch hfalse⟩
  rw [hrun] at hschema hgoals
  dsimp only
  have hversions := runVersions_spec a hschema.legacy
  rcases hresult : runVersions a db₁ with ⟨_ | _, db₂⟩
  · rw [hresult] at hversions
    exact ⟨⟨hschema.grows.trans hversions.1.grows, hversions.1.legacy⟩, fun hfalse => nomatch hfalse⟩
  rw [hresult] at hversions
  refine ⟨⟨hschema.grows.trans hversions.1.grows, hversions.1.legacy⟩, fun hprepared => ?_⟩
  obtain ⟨hmigrations, hversion⟩ := hversions.2 rfl
  have hnames := (prepareStatements_iff.mp hprepared).2
  refine ⟨fun e he => ?_, hmigrations, hversion, hnames⟩
  cases htolerated : e.tolerated with
  | false => exact (hgoals rfl e he htolerated).mono hversions.1.grows
  | true => exact done_of_tolerated he htolerated hnames

/-- A call in which nothing fails for a cause of its own returns. -/
theorem openFile_executed {a : Attempt} (ha : ∀ n, a.fate n = .executed) (h : Legacy db) :
    (openFile a db).1 = true := by
  have hrun : (Script.run SchemaStatement.exec a.fate 0 SCHEMA db).1 = true ∧
      ∀ e ∈ SCHEMA, e.statement.Done (Script.run SchemaStatement.exec a.fate 0 SCHEMA db).2 :=
    Script.run_executed ha (fun e he t t' (ht : Legacy t) hexec => ht.exec he hexec) done_of_exec
      Done.exec (fun _ _ _ hschema _ ht hdone hexec => done_of_exec_eq_none ht hschema hdone hexec) 0 h
  have hlegacy := (run_schema_legacy a h).legacy
  rw [openFile, initSchema]
  rcases hschema : Script.run SchemaStatement.exec a.fate 0 SCHEMA db with ⟨reached, db₁⟩
  rw [hschema] at hrun hlegacy
  obtain ⟨rfl, hdone⟩ := hrun
  dsimp only at hdone hlegacy ⊢
  have hexecuted := runVersions_executed ha hdone
  have hgrows := (runVersions_spec a hlegacy).1.grows
  have hlegacy' := (runVersions_spec a hlegacy).1.legacy
  rcases hresult : runVersions a db₁ with ⟨reached, db₂⟩
  rw [hresult] at hexecuted hgrows hlegacy'
  obtain rfl : reached = true := hexecuted
  refine prepareStatements_iff.mpr ⟨ha _, fun p hp c hc => ?_⟩
  by_cases hadded : (p.1, c) ∈ ADDED
  · obtain ⟨e, he, hcolumn⟩ := List.mem_filterMap.mp hadded
    have hcolumn' := (hdone e he).mono hgrows
    obtain ⟨statement, tolerated⟩ := e
    cases statement with
    | addColumn table column =>
      obtain ⟨rfl, rfl⟩ := Prod.mk.inj (Option.some.inj hcolumn)
      exact hcolumn'
    | pragma | createTable | createIndex | createMigrations => cases hcolumn
  · have hcreates : ∀ p ∈ STATEMENTS, SCHEMA.any (creates p.1) = true := by decide
    have hhas := hgrows.has (has_of_creates (hcreates p hp) hdone)
    exact hlegacy'.columns p hp hhas c hc hadded

theorem eq_of_exec_of_done {statement : SchemaStatement} (hdone : statement.Done db)
    (hexec : statement.exec db = some db') : db' = db := by
  cases statement with
  | pragma text => exact (Option.some.inj hexec).symm
  | createTable name columns =>
    rw [Done] at hdone
    rw [SchemaStatement.exec, if_pos hdone] at hexec
    exact (Option.some.inj hexec).symm
  | createIndex index =>
    rw [Done] at hdone
    rw [SchemaStatement.exec, if_pos hdone] at hexec
    exact (Option.some.inj hexec).symm
  | addColumn table column =>
    obtain ⟨t, ht, hnot, -⟩ := SqlFile.addColumn_eq_some.mp hexec
    rw [Done, SqlFile.tableInfo, ht] at hdone
    exact absurd hdone hnot
  | createMigrations =>
    obtain ⟨rows, hrows⟩ := Option.isSome_iff_exists.mp hdone
    rw [SchemaStatement.exec, hrows, Option.getD_some, ← hrows] at hexec
    exact (Option.some.inj hexec).symm

theorem runVersions_complete (a : Attempt) (h : Complete db) : (runVersions a db).2 = db := by
  obtain ⟨v, hv, hlatest⟩ := h.version
  have hthree : (3 : Int) ≤ v := hlatest
  rw [runVersions]
  split
  · rfl
  dsimp only
  split
  · next hzero =>
    have hle := le_currentVersion hzero hv
    omega
  · next hne =>
    have hmax := (currentVersion_spec hne).2 v hv
    have hnone : MIGRATIONS.filter (fun m => db.versions.max?.getD 0 < m.version) = [] := by
      apply List.filter_eq_nil_iff.mpr
      intro m hm
      have hold : ∀ m ∈ MIGRATIONS, m.version ≤ 3 := by decide
      have hle := hold m hm
      rw [decide_eq_true_eq]
      omega
    rw [runMigrations, hnone]
    rfl

theorem openFile_complete (a : Attempt) (h : Complete db) : (openFile a db).2 = db := by
  have hschema : (Script.run SchemaStatement.exec a.fate 0 SCHEMA db).2 = db := by
    apply Script.run_invariant (I := (· = db)) _ 0 rfl
    rintro e he t t' rfl hexec
    exact eq_of_exec_of_done (h.schema e he) hexec
  rw [openFile, initSchema]
  rcases hrun : Script.run SchemaStatement.exec a.fate 0 SCHEMA db with ⟨_ | _, db₁⟩
  · rw [hrun] at hschema
    exact hschema
  rw [hrun] at hschema
  obtain rfl : db₁ = db := hschema
  have hversions := runVersions_complete a h
  dsimp only
  rcases hresult : runVersions a db₁ with ⟨_ | _, db₂⟩
  · rw [hresult] at hversions
    exact hversions
  · rw [hresult] at hversions
    exact hversions

/-- Whatever failed and wherever the process ended, however often, every row is kept, and the next
call makes the database complete if it returns, which it does if nothing fails. A complete database
is left as it is. -/
theorem opening_resumes (h : Legacy db) (attempts : List Attempt) :
    let s := Run.run (fun db a => (openFile a db).2) db attempts
    db.Extends s ∧ ∀ a : Attempt,
      ((openFile a s).1 = true → Complete (openFile a s).2) ∧
      ((∀ n, a.fate n = .executed) → (openFile a s).1 = true) ∧
      (Complete s → (openFile a s).2 = s) := by
  have hrun : db.Extends (Run.run (fun db a => (openFile a db).2) db attempts) ∧
      Legacy (Run.run (fun db a => (openFile a db).2) db attempts) := by
    apply Run.run_invariant (I := fun s => db.Extends s ∧ Legacy s) _ attempts ⟨.refl db, h⟩
    intro s a hs
    have hsound := (openFile_spec a hs.2).1
    exact ⟨hs.1.trans hsound.grows, hsound.legacy⟩
  intro s
  refine ⟨hrun.1, fun a => ⟨(openFile_spec a hrun.2).2, fun ha => ?_, openFile_complete a⟩⟩
  exact openFile_executed ha hrun.2

/-- A run in a database that was written before there were columns to add. -/
def firstVersion : SqlFile where
  tables := (∅ : OrderedMap String SqlTable).set "runs"
    { columns := RUNS.filter fun c => c.name ≠ "emission_ids"
      rows := [(RUNS.filter fun c => c.name ≠ "emission_ids").map fun c => .text c.name]
      aligned := by decide }

/-- The process ends before the column is added, and then adding it fails. -/
theorem opening_resumes_first_version :
    let s := Run.run (fun db a => (openFile a db).2) firstVersion
      [{ fate := fun n => if n = 12 then .interrupted else .executed, appliedAt := fun _ => "" },
        { fate := fun n => if n = 12 then .fails else .executed, appliedAt := fun _ => "" }]
    firstVersion.Extends s ∧ ∀ a : Attempt,
      ((openFile a s).1 = true → Complete (openFile a s).2) ∧
      ((∀ n, a.fate n = .executed) → (openFile a s).1 = true) ∧
      (Complete s → (openFile a s).2 = s) := by
  apply opening_resumes
  refine ⟨?_, fun _ _ _ hv => nomatch hv⟩
  decide

end SqliteAdapter

end KirkForge
