import KirkForge.MemoryPalace.Store
import KirkForge.Theory.Lists
import KirkForge.Theory.Run
import Mathlib.Data.List.Forall2

/-!
# Stored runs

A store with the runs whose writes it has acknowledged, and when these are found by its queries.
-/

namespace KirkForge

/-- A run that has been stored, as the latest write of the run has left it. -/
structure StoredRun where
  run : RunRow
  emissions : List EmittedFileRecord

/-- The adapters of a store and the runs that it has stored. -/
structure StoreLog (engine : SqliteEngine) where
  adapter : Adapter engine
  stored : List StoredRun := []

inductive StoreInput
  | writeRunAndEmissions (run : RunRow) (emissions : List EmittedFileRecord) (turn : JsNumber)
    (io : StoreIo)
  /-- An observation or a decomposition is written. -/
  | write (obj : MemoryObject) (io : ObjectIo)
  | queryRuns (disk : DiskFile) (limit : Option Nat)
  | queryEmissionsForRun (disk : DiskFile) (runId : String)

structure ShowsRun (run : RunRow) (obj : MemoryObject) : Prop where
  id : obj.id = "run-" ++ run.runId
  kind : obj.kind = "run"
  taskId : obj.taskId = run.taskId
  timestamp : obj.timestamp = run.timestamp
  description : obj.description = run.description
  /-- The ids are an array, or the text of one. -/
  properties : ∃ emissionCount emissionIds,
    obj.properties = MemoryStore.runProperties run.toRunFields emissionCount emissionIds ∧
      (emissionIds = .ofStrings run.emissionIds ∨
        emissionIds = .string (SqliteAdapter.idsText run.emissionIds))

structure ShowsEmission (runId taskId : String) (e : EmittedFileRecord) (obj : MemoryObject) :
    Prop where
  kind : obj.kind = "emission"
  taskId : obj.taskId = taskId
  description : obj.description = "Emitted: " ++ e.path
  runId : obj.properties.get "runId" = .string runId
  path : obj.properties.get "path" = .string e.path
  sha256 : obj.properties.get "sha256" = .string e.sha256
  bytes : obj.properties.get "bytes" = .number e.bytes
  beforeHash : obj.properties.get "beforeHash" = .nullable e.beforeHash
  existed : obj.properties.get "existed" = .bool e.existed ∨
    obj.properties.get "existed" = .number (if e.existed then 1 else 0)

def isRun (obj : MemoryObject) : Bool := obj.kind = "run"

def isEmission (obj : MemoryObject) : Bool := obj.kind = "emission"

/-- The number of runs that the stack holds. -/
def Adapter.runCount {engine : SqliteEngine} : Adapter engine → Nat
  | object a => (a.memory.filter isRun).length
  | sqlite db => (engine.content db).current.runs.length
  | wrapped _ inner => inner.runCount

/-- The queries find a stored run, with any limit that is not below the number of runs, and all its
emissions. No query of an adapter that holds objects fails. -/
structure Queryable (env : MemoryEnv) (adapter : Adapter env.engine) (entry : StoredRun) : Prop where
  run : ∀ disk limit objects, adapter.runCount ≤ limit →
    (MemoryStore.queryRuns env disk (some limit) adapter).1 = .ok objects →
      ∃ obj ∈ objects, ShowsRun entry.run obj
  emissions : ∀ disk objects,
    (MemoryStore.queryEmissionsForRun env disk entry.run.runId adapter).1 = .ok objects →
      ∃ shown : List MemoryObject, shown.Subperm objects ∧
        shown.map MemoryObject.id = entry.run.emissionIds ∧
        entry.emissions.Forall₂ (ShowsEmission entry.run.runId entry.run.taskId) shown
  answers : adapter.database = none → ∀ disk limit,
    (MemoryStore.queryRuns env disk limit adapter).1.isOk ∧
      (MemoryStore.queryEmissionsForRun env disk entry.run.runId adapter).1.isOk

namespace StoreLog

variable (env : MemoryEnv)

def step (s : StoreLog env.engine) : StoreInput → StoreLog env.engine
  | .writeRunAndEmissions run emissions turn io =>
    match MemoryStore.writeRunAndEmissions env io run emissions turn s.adapter with
    | (.ok (), run, adapter) =>
      { adapter
        stored := Table.put (fun entry : StoredRun => entry.run.runId) ⟨run, emissions⟩ s.stored }
    | (.error _, _, adapter) => { s with adapter }
  | .write obj io => { s with adapter := s.adapter.receive io obj }
  | .queryRuns disk limit => { s with adapter := (MemoryStore.queryRuns env disk limit s.adapter).2 }
  | .queryEmissionsForRun disk runId =>
    { s with adapter := (MemoryStore.queryEmissionsForRun env disk runId s.adapter).2 }

/-- The most emissions that a query returns from an adapter that holds objects. -/
def emissionLimit : Nat := 1000

/-- A write of a run goes to an adapter that holds objects, and does not exceed the limit of the
query there, or to a database, around which there may be wrappers. For a database the measures of
the run are numbers, and no id of an emission is used twice. -/
def Sound (s : StoreLog env.engine) : StoreInput → Prop
  | .writeRunAndEmissions run emissions _ io =>
    match s.adapter with
    | .object a => ((a.objects io.disk).filter isEmission).length + emissions.length ≤ emissionLimit
    | adapter =>
      adapter.database.isSome ∧
        (∀ x ∈ [run.tokens, run.durationMs, run.turns, run.validatorDurationMs], x ≠ .nan) ∧
        (emissions.map (MemoryStore.rowId run)).Nodup ∧
        ∀ entry ∈ s.stored, entry.run.runId ≠ run.runId →
          ∀ e ∈ emissions, MemoryStore.rowId run e ∉ entry.run.emissionIds
  | .write obj io =>
    match s.adapter with
    | .object a =>
      ((a.objects io.disk).filter isEmission).length + [obj].countP isEmission ≤ emissionLimit
    | _ => True
  | _ => True

end StoreLog

end KirkForge

/-!
## What a write of a run leaves

A write of a run and its emissions, to an adapter that holds objects and to a database: what is
there afterwards that shows the run, and what was there before and stays.
-/

namespace KirkForge

/-! ### Adapters that hold objects -/

section Objects

open MemoryStore

theorem showsRun_runObject (run : RunRow) : ShowsRun run (runObject run) :=
  ⟨rfl, rfl, rfl, rfl, rfl, _, _, rfl, .inl rfl⟩

theorem showsEmission_emissionObject (env : MemoryEnv) (io : StoreIo) (runId taskId : String)
    (turn : JsNumber) (i : Nat) (e : EmittedFileRecord) :
    ShowsEmission runId taskId e (emissionObject env io runId taskId turn i e) :=
  ⟨rfl, rfl, rfl, rfl, rfl, rfl, rfl, rfl, .inl rfl⟩

/-- The adapter holds a stored run and its emissions, and its query returns them. -/
structure ObjectAdapter.Keeps (a : ObjectAdapter) (entry : StoredRun) : Prop where
  ready : a.Ready
  few : (a.memory.filter isEmission).length ≤ StoreLog.emissionLimit
  run : ∃ obj ∈ a.memory, ShowsRun entry.run obj
  emissions : ∃ shown : List MemoryObject, shown.Sublist a.memory ∧
    shown.map MemoryObject.id = entry.run.emissionIds ∧
    entry.emissions.Forall₂ (ShowsEmission entry.run.runId entry.run.taskId) shown

theorem ObjectAdapter.Keeps.extend {a a' : ObjectAdapter} {entry : StoredRun} (h : a.Keeps entry)
    {added : List MemoryObject} (hready : a'.Ready) (hadded : a'.memory = a.memory ++ added)
    (hfew : (a'.memory.filter isEmission).length ≤ StoreLog.emissionLimit) : a'.Keeps entry where
  ready := hready
  few := hfew
  run := by
    obtain ⟨obj, hobj, hshows⟩ := h.run
    exact ⟨obj, hadded ▸ List.mem_append_left _ hobj, hshows⟩
  emissions := by
    obtain ⟨shown, hsub, hshows⟩ := h.emissions
    exact ⟨shown, hadded ▸ hsub.trans (List.sublist_append_left _ _), hshows⟩

/-- The records of the emissions are added one by one, as far as the writes succeed. -/
theorem writeEmissionRecords_spec (env : MemoryEnv) (io : StoreIo) (runId taskId : String)
    (turn : JsNumber) (i : Nat) (emissions : List EmittedFileRecord) (a : ObjectAdapter) :
    ∃ added : List MemoryObject,
      (writeEmissionRecords env io runId taskId turn i emissions a).2.objects io.disk =
        a.objects io.disk ++ added ∧
      (a.Ready → (writeEmissionRecords env io runId taskId turn i emissions a).2.Ready) ∧
      added.length ≤ emissions.length ∧
      ∀ ids, (writeEmissionRecords env io runId taskId turn i emissions a).1 = .ok ids →
        added.map MemoryObject.id = ids ∧ emissions.Forall₂ (ShowsEmission runId taskId) added := by
  induction emissions generalizing i a with
  | nil =>
    refine ⟨[], (List.append_nil _).symm, id, Nat.le_refl 0, fun ids hids => ?_⟩
    cases hids
    exact ⟨rfl, .nil⟩
  | cons e emissions ih =>
    have hcases := a.write_cases io.toObjectIo i (emissionObject env io runId taskId turn i e)
    simp only [writeEmissionRecords]
    rcases hwrite : a.write io.toObjectIo i (emissionObject env io runId taskId turn i e) with
      ⟨cause | ⟨⟩, a'⟩
    · rw [hwrite] at hcases
      obtain ⟨_, hkept, hobjects⟩ := hcases.resolve_left nofun
      refine ⟨[], hobjects.trans (List.append_nil _).symm, fun hready => ?_, Nat.zero_le _, nofun⟩
      exact (hkept hready).symm ▸ hready
    · rw [hwrite] at hcases
      obtain ⟨_, hready, hobjects⟩ := hcases.resolve_right nofun
      obtain ⟨added, hadded, hstays, hlength, hok⟩ := ih (i + 1) a'
      refine ⟨emissionObject env io runId taskId turn i e :: added, ?_, fun _ => hstays hready,
        Nat.succ_le_succ hlength, fun ids hids => ?_⟩
      · rw [hadded, hobjects, List.append_assoc, List.singleton_append]
      · obtain ⟨rest, hrest, rfl⟩ : ∃ rest,
            (writeEmissionRecords env io runId taskId turn (i + 1) emissions a').1 = .ok rest ∧
              (emissionObject env io runId taskId turn i e).id :: rest = ids := by
          cases h : (writeEmissionRecords env io runId taskId turn (i + 1) emissions a').1 with
          | error cause => simp [h, Except.map] at hids
          | ok rest => exact ⟨rest, rfl, by simpa [h, Except.map] using hids⟩
        obtain ⟨hids', hshows⟩ := hok rest hrest
        have hfirst := showsEmission_emissionObject env io runId taskId turn i e
        exact ⟨congrArg _ hids', .cons hfirst hshows⟩

theorem length_filter_isEmission_runObject (run : RunRow) :
    ([runObject run].filter isEmission).length = 0 := rfl

/-- The writes one after the other add objects, and when all have succeeded these show the run and
its emissions. -/
theorem writeRunAndEmissions_object (env : MemoryEnv) (io : StoreIo) (run : RunRow)
    (emissions : List EmittedFileRecord) (turn : JsNumber) (a : ObjectAdapter) :
    ∃ a' added, (writeRunAndEmissions env io run emissions turn (.object a)).2.2 = .object a' ∧
      a'.objects io.disk = a.objects io.disk ++ added ∧ (a.Ready → a'.Ready) ∧
      (added.filter isEmission).length ≤ emissions.length ∧
      ∀ run', (writeRunAndEmissions env io run emissions turn (.object a)).1 = .ok () →
        (writeRunAndEmissions env io run emissions turn (.object a)).2.1 = run' →
          a'.Ready ∧ ∃ shown : List MemoryObject, added = shown ++ [runObject run'] ∧
            shown.map MemoryObject.id = run'.emissionIds ∧
            emissions.Forall₂ (ShowsEmission run'.runId run'.taskId) shown := by
  obtain ⟨shown, hshown, hstays, hlength, hok⟩ :=
    writeEmissionRecords_spec env io run.runId run.taskId turn 0 emissions a
  have hfew : (shown.filter isEmission).length ≤ emissions.length :=
    (List.length_filter_le _ _).trans hlength
  simp only [writeRunAndEmissions]
  rcases hrecords : writeEmissionRecords env io run.runId run.taskId turn 0 emissions a with
    ⟨cause | ids, a₁⟩
  · rw [hrecords] at hshown hstays
    refine ⟨a₁, shown, rfl, hshown, hstays, hfew, fun _ hwritten => ?_⟩
    cases hwritten
  · rw [hrecords] at hshown hstays hok
    obtain ⟨hids, hshows⟩ := hok ids rfl
    have hcases :=
      a₁.write_cases io.toObjectIo emissions.length (runObject (withEmissions run ids emissions))
    simp only [writeRunRecord]
    rcases hwrite : a₁.write io.toObjectIo emissions.length
      (runObject (withEmissions run ids emissions)) with ⟨result, a₂⟩
    rw [hwrite] at hcases
    rcases hcases with ⟨hwritten, hready, hobjects⟩ | ⟨⟨cause, hfails⟩, hkept, hobjects⟩
    · refine ⟨a₂, shown ++ [runObject (withEmissions run ids emissions)], rfl, ?_, fun _ => hready,
        ?_, ?_⟩
      · rw [hobjects, hshown, List.append_assoc]
      · rwa [List.filter_append, List.length_append, length_filter_isEmission_runObject, Nat.add_zero]
      · rintro _ - rfl
        exact ⟨hready, shown, rfl, hids, hshows⟩
    · refine ⟨a₂, shown, rfl, hobjects.trans hshown, fun hready => ?_, hfew, fun _ hwritten => ?_⟩
      · have hsame : a₂ = a₁ := hkept (hstays hready)
        rw [hsame]
        exact hstays hready
      · cases hfails.symm.trans hwritten

end Objects

/-! ### Databases -/

section Databases

open MemoryStore SqliteAdapter

/-- The row is that of an emission of the run. -/
structure RowOf (run : RunRow) (e : EmittedFileRecord) (row : EmissionColumns) : Prop where
  runId : row.runId = run.runId
  taskId : row.taskId = run.taskId
  path : row.path = e.path
  sha256 : row.sha256 = e.sha256
  bytes : row.bytes = e.bytes
  beforeHash : row.beforeHash = e.beforeHash
  existed : row.existed = if e.existed then 1 else 0

/-- The tables hold a stored run and its emissions. -/
structure SqlTables.Keeps (tables : SqlTables) (entry : StoredRun) : Prop where
  run : runColumns entry.run ∈ tables.runs
  emissions : ∃ rows : List EmissionColumns, rows.Sublist tables.emissions ∧
    rows.map EmissionColumns.id = entry.run.emissionIds ∧
    entry.emissions.Forall₂ (RowOf entry.run) rows

theorem showsRun_runRowObject (run : RunRow) : ShowsRun run (runRowObject (runColumns run)) :=
  ⟨rfl, rfl, rfl, rfl, rfl, _, _, rfl, .inr rfl⟩

theorem RowOf.shows {run : RunRow} {e : EmittedFileRecord} {row : EmissionColumns}
    (h : RowOf run e row) : ShowsEmission run.runId run.taskId e (emissionRowObject row) where
  kind := rfl
  taskId := h.taskId
  description := congrArg ("Emitted: " ++ ·) h.path
  runId := congrArg JsValue.string h.runId
  path := congrArg JsValue.string h.path
  sha256 := congrArg JsValue.string h.sha256
  bytes := congrArg JsValue.number h.bytes
  beforeHash := congrArg JsValue.nullable h.beforeHash
  existed := .inr (congrArg JsValue.number h.existed)

theorem stored_runColumns {run : RunRow}
    (h : ∀ x ∈ [run.tokens, run.durationMs, run.turns, run.validatorDurationMs], x ≠ .nan)
    (ids : List String) (emissions : List EmittedFileRecord) :
    (runColumns (withEmissions run ids emissions)).stored =
      runColumns (withEmissions run ids emissions) := by
  simp only [List.forall_mem_cons] at h
  obtain ⟨htokens, hduration, hturns, hvalidator, _⟩ := h
  simp only [RunColumns.stored, runColumns, withEmissions, JsNumber.stored_of_ne htokens,
    JsNumber.stored_of_ne hduration, JsNumber.stored_of_ne hturns, JsNumber.stored_of_ne hvalidator,
    JsNumber.stored_of_ne (JsNumber.natCast_ne_nan _)]

/-- The rows that a write of a run puts into the table `emissions`. -/
def writtenRows (io : StoreIo) (run : RunRow) (turn : JsNumber)
    (emissions : List EmittedFileRecord) : List EmissionColumns :=
  (emissions.mapIdx (emissionRow io run turn)).map fun e => (emissionColumns e).stored

theorem ids_writtenRows (io : StoreIo) (run : RunRow) (turn : JsNumber)
    (emissions : List EmittedFileRecord) :
    (writtenRows io run turn emissions).map EmissionColumns.id = emissions.map (rowId run) := by
  refine List.ext_getElem (by simp [writtenRows]) fun i hi hi' => ?_
  simp [writtenRows, EmissionColumns.stored, emissionColumns, emissionRow]

theorem rowOf_written (io : StoreIo) (run : RunRow) (turn : JsNumber) (i : Nat)
    (e : EmittedFileRecord) : RowOf run e (emissionColumns (emissionRow io run turn i e)).stored where
  runId := rfl
  taskId := rfl
  path := rfl
  sha256 := rfl
  bytes := rfl
  beforeHash := rfl
  existed := by
    have hbit (b : Bool) : JsNumber.stored (if b then 1 else 0) = if b then 1 else 0 := by
      cases b <;> rfl
    exact hbit e.existed

theorem forall₂_writtenRows (io : StoreIo) (run : RunRow) (turn : JsNumber)
    (emissions : List EmittedFileRecord) :
    emissions.Forall₂ (RowOf run) (writtenRows io run turn emissions) := by
  refine List.forall₂_iff_get.mpr ⟨by simp [writtenRows], fun i hi hi' => ?_⟩
  simp only [writtenRows, List.get_eq_getElem, List.getElem_map, List.getElem_mapIdx]
  exact rowOf_written io run turn i _

/-- The tables after a write hold the run and its emissions. -/
theorem keeps_tablesAfter {run : RunRow}
    (hnumbers : ∀ x ∈ [run.tokens, run.durationMs, run.turns, run.validatorDurationMs], x ≠ .nan)
    {emissions : List EmittedFileRecord} (hids : (emissions.map (rowId run)).Nodup) (io : StoreIo)
    (turn : JsNumber) (tables : SqlTables) :
    let written := withEmissions run (emissions.map (rowId run)) emissions
    (tablesAfter written (emissions.mapIdx (emissionRow io written turn)) tables).Keeps
      ⟨written, emissions⟩ := by
  intro written
  have hnews : (writtenRows io written turn emissions).map EmissionColumns.id =
      emissions.map (rowId run) := ids_writtenRows io written turn emissions
  refine ⟨?_, writtenRows io written turn emissions,
    Table.news_sublist_foldl_put (hnews ▸ hids) _, hnews,
    forall₂_writtenRows io written turn emissions⟩
  simp only [tablesAfter, written, stored_runColumns hnumbers]
  exact Table.mem_put_self _ _

/-- They hold what was stored of another run if no id is taken from it. -/
theorem SqlTables.Keeps.tablesAfter {tables : SqlTables} {entry : StoredRun} (h : tables.Keeps entry)
    {run : RunRow} (hne : entry.run.runId ≠ run.runId) {emissions : List EmittedFileRecord}
    (hids : (emissions.map (rowId run)).Nodup)
    (hothers : ∀ e ∈ emissions, rowId run e ∉ entry.run.emissionIds) (io : StoreIo) (turn : JsNumber) :
    (tablesAfter run (emissions.mapIdx (emissionRow io run turn)) tables).Keeps entry := by
  have hnews := ids_writtenRows io run turn emissions
  obtain ⟨rows, hsub, hrowIds, hrows⟩ := h.emissions
  refine ⟨Table.mem_put.mpr (.inr ⟨h.run, hne⟩), rows, ?_, hrowIds, hrows⟩
  have hold : rows.Sublist (tables.emissions.filter fun e => e.runId ≠ run.runId) := by
    have hrunId := Lists.forall_mem_of_forall₂ hrows fun _ _ h => h.runId
    have hfilter := hsub.filter fun e => decide (e.runId ≠ run.runId)
    rwa [List.filter_eq_self.mpr fun row hrow =>
      decide_eq_true ((hrunId row hrow).symm ▸ hne)] at hfilter
  refine Table.sublist_foldl_put (hnews ▸ hids) hold fun row hrow hmem => ?_
  have hrowId : row.id ∈ entry.run.emissionIds := hrowIds ▸ List.mem_map_of_mem hrow
  obtain ⟨e, he, hid⟩ := List.mem_map.mp ((congrArg (row.id ∈ ·) hnews).mp hmem)
  exact hothers e he (hid ▸ hrowId)

end Databases

end KirkForge
