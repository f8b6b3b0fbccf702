import KirkForge.MemoryPalace.StoredRuns

/-!
# Stored runs can be queried

Over whole runs of a store whose writes are sound, the queries find every stored run with all its
emissions. A database has one row for each emitted file of a run exactly if the ids of the files are
distinct (`oneForEach_iff`).
-/

namespace KirkForge

open MemoryStore

variable {env : MemoryEnv}

/-! ### Queries of a database -/

theorem Adapter.runCount_database {engine : SqliteEngine} {adapter : Adapter engine}
    {db : engine.Db} (h : adapter.database = some db) :
    adapter.runCount = (engine.content db).current.runs.length := by
  induction adapter with
  | object a => exact nomatch h
  | sqlite db' =>
    cases h
    rfl
  | wrapped w inner ih => exact ih h

theorem queryRuns_database {adapter : Adapter env.engine} {db : env.engine.Db}
    (h : adapter.database = some db) (disk : DiskFile) (limit : Option Nat) :
    queryRuns env disk limit adapter =
      (rowObjects "queryRuns" runRowObject ((env.engine.selectRuns (limit.getD 50) db).map some),
        adapter) := by
  have hrows := Adapter.callRows_database (SqliteAdapter.queryRuns (limit.getD 50)) h
  cases adapter with
  | object a => exact nomatch h
  | _ => exact congrArg (fun rows => (rowObjects "queryRuns" runRowObject rows, _)) hrows

theorem queryEmissionsForRun_database {adapter : Adapter env.engine} {db : env.engine.Db}
    (h : adapter.database = some db) (disk : DiskFile) (runId : String) :
    queryEmissionsForRun env disk runId adapter =
      (rowObjects "queryEmissionsForRun" emissionRowObject
        ((env.engine.selectEmissions runId db).map some), adapter) := by
  have hrows := Adapter.callRows_database (SqliteAdapter.queryEmissionsForRun runId) h
  cases adapter with
  | object a => exact nomatch h
  | _ =>
    exact congrArg (fun rows => (rowObjects "queryEmissionsForRun" emissionRowObject rows, _)) hrows

theorem writeRunAndEmissions_database {adapter : Adapter env.engine} {db : env.engine.Db}
    (h : adapter.database = some db) (io : StoreIo) (run : RunRow)
    (emissions : List EmittedFileRecord) (turn : JsNumber) :
    let written := withEmissions run (emissions.map (rowId run)) emissions
    let r := SqliteAdapter.writeRunAndEmissions written
      (emissions.mapIdx (emissionRow io written turn)) db
    (writeRunAndEmissions env io run emissions turn adapter).2.1 = written ∧
      ((writeRunAndEmissions env io run emissions turn adapter).1 = .ok () ↔ r.1 = .ok ()) ∧
      (writeRunAndEmissions env io run emissions turn adapter).2.2.database = some r.2 := by
  intro written r
  have hresult := Adapter.callWriteRunAndEmissions_fst h written
    (emissions.mapIdx (emissionRow io written turn))
  have hdatabase := adapter.database_callWriteRunAndEmissions written
    (emissions.mapIdx (emissionRow io written turn))
  rw [h, Option.map_some] at hdatabase
  cases adapter with
  | object a => cases h
  | _ =>
    simp only [writeRunAndEmissions]
    split
    · next hcall =>
      rw [hcall] at hresult hdatabase
      exact ⟨rfl, iff_of_true rfl hresult.symm, hdatabase⟩
    · next hcall =>
      rw [hcall] at hresult hdatabase
      refine ⟨rfl, iff_of_false (by rintro ⟨⟩) fun hok => ?_, hdatabase⟩
      cases hresult.trans hok

/-! ### What is kept is found -/

/-- A bare adapter that holds objects, or the database of the stack, holds a stored run. -/
def Adapter.Keeps {engine : SqliteEngine} (adapter : Adapter engine) (entry : StoredRun) : Prop :=
  (∃ a, adapter = .object a ∧ a.Keeps entry) ∨
    ∃ db, adapter.database = some db ∧ (engine.content db).current.Keeps entry

theorem ObjectAdapter.Keeps.queryable {a : ObjectAdapter} {entry : StoredRun} (h : a.Keeps entry) :
    Queryable env (.object a) entry where
  run := by
    intro disk limit objects hlimit hobjects
    obtain ⟨obj, hobj, hshows⟩ := h.run
    simp only [queryRuns, ObjectAdapter.query_of_ready h.ready] at hobjects
    cases hobjects
    have hperm := MemoryQuery.results_perm env.localeCompare (by decide) hlimit
    refine ⟨obj, hperm.mem_iff.mpr (List.mem_filter.mpr ⟨hobj, ?_⟩), hshows⟩
    exact decide_eq_true hshows.kind
  emissions := by
    intro disk objects hobjects
    obtain ⟨shown, hsub, hids, hshown⟩ := h.emissions
    simp only [queryEmissionsForRun, ObjectAdapter.query_of_ready h.ready] at hobjects
    cases hobjects
    have hperm := MemoryQuery.results_perm env.localeCompare (by decide) h.few
    refine ⟨shown, ?_, hids, hshown⟩
    have hemissions := Lists.forall_mem_of_forall₂ hshown (p := fun o => isEmission o = true)
      fun _ _ h => decide_eq_true h.kind
    have hrunId := Lists.forall_mem_of_forall₂ hshown
      (p := fun o => (o.properties.get "runId").isString entry.run.runId = true)
      fun _ _ h => h.runId ▸ decide_eq_true rfl
    have hfound := ((hsub.filter isEmission).subperm.trans hperm.symm.subperm).filter
      fun o => (o.properties.get "runId").isString entry.run.runId
    rwa [List.filter_eq_self.mpr hemissions, List.filter_eq_self.mpr hrunId] at hfound
  answers := fun _ disk limit => by
    simp only [queryRuns, queryEmissionsForRun, ObjectAdapter.query_of_ready h.ready]
    exact ⟨rfl, rfl⟩

theorem SqlTables.Keeps.queryable (henv : env.engine.Documented) {adapter : Adapter env.engine}
    {db : env.engine.Db} (hdb : adapter.database = some db) {entry : StoredRun}
    (h : (env.engine.content db).current.Keeps entry) : Queryable env adapter entry where
  run := by
    intro disk limit objects hlimit hobjects
    rw [Adapter.runCount_database hdb] at hlimit
    rw [queryRuns_database hdb] at hobjects
    obtain ⟨rows, hrows, rfl⟩ := rowObjects_eq_ok hobjects
    have hperm := henv.selectRuns limit db rows hrows hlimit
    exact ⟨_, List.mem_map_of_mem (hperm.mem_iff.mpr h.run), showsRun_runRowObject _⟩
  emissions := by
    intro disk objects hobjects
    obtain ⟨stored, hsub, hids, hstored⟩ := h.emissions
    rw [queryEmissionsForRun_database hdb] at hobjects
    obtain ⟨rows, hrows, rfl⟩ := rowObjects_eq_ok hobjects
    have hperm := henv.selectEmissions entry.run.runId db rows hrows
    have hrunId := Lists.forall_mem_of_forall₂ hstored fun _ _ h => h.runId
    have hselected := hsub.filter fun e => decide (e.runId = entry.run.runId)
    rw [List.filter_eq_self.mpr fun row hrow => decide_eq_true (hrunId row hrow)] at hselected
    obtain ⟨found, hfound, hfoundSub⟩ := hselected.subperm.trans hperm.symm.subperm
    refine ⟨stored.map emissionRowObject,
      ⟨found.map emissionRowObject, hfound.map _, hfoundSub.map _⟩, ?_, ?_⟩
    · rw [List.map_map, ← hids]
      rfl
    · exact List.forall₂_map_right_iff.mpr (hstored.imp fun _ _ h => h.shows)
  answers := fun hnone => nomatch hdb.symm.trans hnone

theorem Adapter.Keeps.queryable (henv : env.engine.Documented) {adapter : Adapter env.engine}
    {entry : StoredRun} (h : adapter.Keeps entry) : Queryable env adapter entry := by
  rcases h with ⟨a, rfl, ha⟩ | ⟨db, hdb, hkeeps⟩
  · exact ha.queryable
  · exact hkeeps.queryable henv hdb

/-! ### Steps -/

namespace StoreLog

/-- No transaction is open between the calls, and the adapters hold what has been stored. -/
structure Inv (s : StoreLog env.engine) : Prop where
  idle : ∀ db, s.adapter.database = some db → (env.engine.content db).saved = none
  kept : ∀ entry ∈ s.stored, s.adapter.Keeps entry

theorem database_queryRuns (disk : DiskFile) (limit : Option Nat) (adapter : Adapter env.engine) :
    (queryRuns env disk limit adapter).2.database = adapter.database := by
  cases adapter <;> rfl

theorem database_queryEmissionsForRun (disk : DiskFile) (runId : String)
    (adapter : Adapter env.engine) :
    (queryEmissionsForRun env disk runId adapter).2.database = adapter.database := by
  cases adapter <;> rfl

/-- A query leaves adapters that hold a stored run as they are. -/
theorem queries_of_keeps {adapter : Adapter env.engine} {entry : StoredRun}
    (h : adapter.Keeps entry) (disk : DiskFile) :
    (∀ limit, (queryRuns env disk limit adapter).2 = adapter) ∧
      ∀ runId, (queryEmissionsForRun env disk runId adapter).2 = adapter := by
  rcases h with ⟨a, rfl, ha⟩ | ⟨db, hdb, _⟩
  · simp [queryRuns, queryEmissionsForRun, ObjectAdapter.query_of_ready ha.ready]
  · simp [queryRuns_database hdb, queryEmissionsForRun_database hdb]

theorem inv_query {s : StoreLog env.engine} (h : s.Inv) {adapter : Adapter env.engine}
    (hdatabase : adapter.database = s.adapter.database)
    (hsame : ∀ entry, s.adapter.Keeps entry → adapter = s.adapter) : Inv { s with adapter } where
  idle := fun db hdb => h.idle db (hdatabase ▸ hdb)
  kept := fun entry hentry => by
    have hkeeps := h.kept entry hentry
    exact (hsame entry hkeeps).symm ▸ hkeeps

/-- The emissions of an adapter that holds objects stay within the limit. -/
theorem few_of_added {a a' : ObjectAdapter} {disk : DiskFile} {added : List MemoryObject} {n : Nat}
    (hready : a'.Ready) (hadded : a'.objects disk = a.objects disk ++ added)
    (hn : (added.filter isEmission).length ≤ n)
    (hfew : ((a.objects disk).filter isEmission).length + n ≤ emissionLimit) :
    (a'.memory.filter isEmission).length ≤ emissionLimit := by
  rw [← ObjectAdapter.objects_of_ready hready disk, hadded, List.filter_append, List.length_append]
  omega

theorem keeps_of_added {a a' : ObjectAdapter} {entry : StoredRun} (h : a.Keeps entry)
    {disk : DiskFile} {added : List MemoryObject} {n : Nat} (hready : a'.Ready)
    (hadded : a'.objects disk = a.objects disk ++ added)
    (hn : (added.filter isEmission).length ≤ n)
    (hfew : ((a.objects disk).filter isEmission).length + n ≤ emissionLimit) : a'.Keeps entry := by
  have hlimit := few_of_added hready hadded hn hfew
  rw [ObjectAdapter.objects_of_ready hready, ObjectAdapter.objects_of_ready h.ready] at hadded
  exact h.extend hready hadded hlimit

theorem inv_write (henv : env.engine.Documented) {s : StoreLog env.engine} (h : s.Inv)
    {obj : MemoryObject} {io : ObjectIo} (hsound : Sound env s (.write obj io)) :
    Inv { s with adapter := s.adapter.receive io obj } where
  idle := by
    intro db hdb
    rw [Adapter.database_receive, Option.map_eq_some_iff] at hdb
    obtain ⟨db₀, hdb₀, rfl⟩ := hdb
    rw [SqliteAdapter.content_write henv obj (h.idle db₀ hdb₀)]
    exact h.idle db₀ hdb₀
  kept := by
    intro entry hentry
    rcases h.kept entry hentry with ⟨a, ha, hkeeps⟩ | ⟨db, hdb, hkeeps⟩
    · refine .inl ⟨(a.write io 0 obj).2, by simp only [ha, Adapter.receive], ?_⟩
      simp only [Sound, ha] at hsound
      rcases a.write_cases io 0 obj with ⟨_, hready, hadded⟩ | ⟨_, hsame, _⟩
      · have hcount : ([obj].filter isEmission).length ≤ [obj].countP isEmission :=
          List.countP_eq_length_filter ▸ Nat.le_refl _
        exact keeps_of_added hkeeps hready hadded hcount hsound
      · rw [hsame hkeeps.ready]
        exact hkeeps
    · refine .inr ⟨(SqliteAdapter.write obj db).2, ?_, ?_⟩
      · rw [Adapter.database_receive, hdb, Option.map_some]
      · rwa [SqliteAdapter.content_write henv obj (h.idle db hdb)]

/-- A run written to an adapter that holds objects. -/
theorem inv_writeRunAndEmissions_object {a : ObjectAdapter} {stored : List StoredRun}
    (h : @Inv env ⟨.object a, stored⟩) (io : StoreIo) (run : RunRow)
    (emissions : List EmittedFileRecord) (turn : JsNumber)
    (hsound : ((a.objects io.disk).filter isEmission).length + emissions.length ≤ emissionLimit) :
    Inv (step env ⟨.object a, stored⟩ (.writeRunAndEmissions run emissions turn io)) := by
  obtain ⟨a', added, hadapter, hadded, hstays, hn, hok⟩ :=
    writeRunAndEmissions_object env io run emissions turn a
  have hold : ∀ entry ∈ stored, a'.Keeps entry := by
    intro entry hentry
    rcases h.kept entry hentry with ⟨a₀, ha₀, hkeeps⟩ | ⟨db, hdb, _⟩
    · cases ha₀
      exact keeps_of_added hkeeps (hstays hkeeps.ready) hadded hn hsound
    · cases hdb
  simp only [step]
  rcases hresult : writeRunAndEmissions env io run emissions turn (.object a) with
    ⟨cause | ⟨⟩, run', adapter⟩
  · rw [hresult] at hadapter
    cases hadapter
    exact ⟨by rintro _ ⟨⟩, fun entry hentry => .inl ⟨a', rfl, hold entry hentry⟩⟩
  · rw [hresult] at hadapter hok
    cases hadapter
    obtain ⟨hready, shown, rfl, hids, hshown⟩ := hok run' rfl rfl
    refine ⟨by rintro _ ⟨⟩, fun entry hentry => .inl ⟨a', rfl, ?_⟩⟩
    rcases Table.mem_put.mp hentry with rfl | ⟨hentry, _⟩
    · have hmemory := (ObjectAdapter.objects_of_ready hready io.disk).symm.trans hadded
      refine ⟨hready, few_of_added hready hadded hn hsound,
        ⟨runObject run', ?_, showsRun_runObject run'⟩, shown, ?_, hids, hshown⟩
      · rw [hmemory]
        simp
      · rw [hmemory]
        exact (List.sublist_append_left _ _).trans (List.sublist_append_right _ _)
    · exact hold entry hentry

theorem keeps_of_database {adapter : Adapter env.engine} {db : env.engine.Db}
    (hdb : adapter.database = some db) {entry : StoredRun} (h : adapter.Keeps entry) :
    (env.engine.content db).current.Keeps entry := by
  rcases h with ⟨a, rfl, _⟩ | ⟨db', hdb', hkeeps⟩
  · exact nomatch hdb
  · cases hdb.symm.trans hdb'
    exact hkeeps

/-- A run written to a database. -/
theorem inv_writeRunAndEmissions_database (henv : env.engine.Documented) {s : StoreLog env.engine}
    (h : s.Inv) {db : env.engine.Db} (hdb : s.adapter.database = some db) (io : StoreIo) {run : RunRow}
    {emissions : List EmittedFileRecord} (turn : JsNumber)
    (hnumbers : ∀ x ∈ [run.tokens, run.durationMs, run.turns, run.validatorDurationMs], x ≠ .nan)
    (hids : (emissions.map (rowId run)).Nodup)
    (hothers : ∀ entry ∈ s.stored, entry.run.runId ≠ run.runId →
      ∀ e ∈ emissions, rowId run e ∉ entry.run.emissionIds) :
    Inv (step env s (.writeRunAndEmissions run emissions turn io)) := by
  have hkept := fun entry hentry => keeps_of_database hdb (h.kept entry hentry)
  obtain ⟨tables, hcontent⟩ : ∃ tables, env.engine.content db = ⟨tables, none⟩ := by
    have hidle := h.idle db hdb
    cases hc : env.engine.content db with
    | mk tables saved =>
      rw [hc] at hidle
      cases hidle
      exact ⟨tables, rfl⟩
  rw [hcontent] at hkept
  obtain ⟨hrun, hok, hdatabase⟩ := writeRunAndEmissions_database hdb io run emissions turn
  have hwritten := SqliteAdapter.writeRunAndEmissions_cases henv
    (withEmissions run (emissions.map (rowId run)) emissions) (emissions.mapIdx (emissionRow io
      (withEmissions run (emissions.map (rowId run)) emissions) turn)) hcontent
  simp only [step]
  rcases hresult : writeRunAndEmissions env io run emissions turn s.adapter with
    ⟨cause | ⟨⟩, run', adapter⟩
  · rw [hresult] at hok hdatabase
    obtain ⟨_, hsame⟩ := hwritten.resolve_left fun hleft => by cases hok.mpr hleft.1
    refine ⟨fun db' hdb' => ?_, fun entry hentry => .inr ⟨_, hdatabase, ?_⟩⟩
    · cases hdatabase.symm.trans hdb'
      rw [hsame]
    · rw [hsame]
      exact hkept entry hentry
  · rw [hresult] at hrun hok hdatabase
    cases hrun
    have hall := hok.mp rfl
    obtain ⟨_, hafter⟩ := hwritten.resolve_right (by
      rintro ⟨⟨_, hfails⟩, _⟩
      cases hfails.symm.trans hall)
    refine ⟨fun db' hdb' => ?_, fun entry hentry => .inr ⟨_, hdatabase, ?_⟩⟩
    · cases hdatabase.symm.trans hdb'
      rw [hafter]
    · rw [hafter]
      rcases Table.mem_put.mp hentry with rfl | ⟨hentry, hne⟩
      · exact keeps_tablesAfter hnumbers hids io turn tables
      · exact (hkept entry hentry).tablesAfter hne hids (hothers entry hentry hne) io turn

theorem inv_step (henv : env.engine.Documented) {s : StoreLog env.engine} (h : s.Inv)
    {i : StoreInput} (hsound : Sound env s i) : Inv (step env s i) := by
  cases i with
  | writeRunAndEmissions run emissions turn io =>
    obtain ⟨adapter, stored⟩ := s
    cases adapter with
    | object a => exact inv_writeRunAndEmissions_object h io run emissions turn hsound
    | _ =>
      obtain ⟨hsome, hnumbers, hids, hothers⟩ := hsound
      obtain ⟨db, hdb⟩ := Option.isSome_iff_exists.mp hsome
      exact inv_writeRunAndEmissions_database henv h hdb io turn hnumbers hids hothers
  | write obj io => exact inv_write henv h hsound
  | queryRuns disk limit =>
    exact inv_query h (database_queryRuns disk limit s.adapter)
      fun entry hentry => (queries_of_keeps hentry disk).1 limit
  | queryEmissionsForRun disk runId =>
    exact inv_query h (database_queryEmissionsForRun disk runId s.adapter)
      fun entry hentry => (queries_of_keeps hentry disk).2 runId

/-- In a run whose writes are sound, the queries find every stored run and its emissions. -/
theorem stored_runs_queryable (env : MemoryEnv) (henv : env.engine.Documented)
    (adapter : Adapter env.engine)
    (hidle : ∀ db, adapter.database = some db → (env.engine.content db).saved = none)
    (inputs : List StoreInput) (hinputs : Run.AllSteps (step env) (Sound env) { adapter } inputs) :
    Run.AllStates (step env) (fun s => ∀ entry ∈ s.stored, Queryable env s.adapter entry) { adapter }
      inputs := by
  have hinit : @Inv env { adapter } := ⟨hidle, fun _ h => nomatch h⟩
  have hinv := Run.allStates_of_invariant (I := Inv)
    (fun s i hs hi => inv_step henv hs hi) hinit hinputs
  exact hinv.mono fun s hs entry hentry => (hs.kept entry hentry).queryable henv

/-- A run that has passed. -/
def passedRun (runId : String) : RunRow where
  runId := runId
  taskId := "t1"
  description := "plan"
  language := "ts"
  mode := "pattern"
  model := "m"
  providerKey := "k"
  providerType := "p"
  outcome := "pass"
  outcomeClass := "pass"
  routingLesson := "reward"
  finalVerdict := "pass"
  sourceOfTruth := "verifier"
  finalAction := "accept"
  tokens := 0
  durationMs := 0
  turns := 1
  validatorDurationMs := 0
  filesEmitted := 0
  totalBytesEmitted := 0
  emissionIds := []
  timestamp := "2024-01-01T00:00:00.000Z"

/-- Nothing goes wrong and the clock stands still. -/
def calmIo : StoreIo := ⟨⟨fun _ => true, .missing⟩, fun _ => "2024-01-01T00:00:00.000Z"⟩

/-- A store of which the database is in memory. -/
def memoryEnv : MemoryEnv := ⟨fun _ => "", fun _ _ => .eq, SqliteEngine.inMemory⟩

/-- Two runs on an encrypted database, a query in between. -/
theorem stored_runs_queryable_encrypted :
    let emission : EmittedFileRecord :=
      { path := "a.ts", sha256 := "0123456789abcdef", bytes := 7, beforeHash := none, existed := false }
    Run.AllStates (step memoryEnv) (fun s => ∀ entry ∈ s.stored, Queryable memoryEnv s.adapter entry)
      { adapter := .wrapped .tenantEncryption (.sqlite (⟨{}, none⟩ : Transaction.Content SqlTables)) }
      [.writeRunAndEmissions (passedRun "r1") [emission] 1 calmIo, .queryRuns .missing none,
        .writeRunAndEmissions (passedRun "r2") [emission] 1 calmIo] := by
  intro emission
  refine stored_runs_queryable memoryEnv SqliteEngine.inMemory_documented _ ?_ _
    ⟨?_, trivial, ?_, trivial⟩
  · rintro db ⟨⟩
    rfl
  · exact ⟨rfl, by decide, by decide, fun _ hentry => absurd hentry List.not_mem_nil⟩
  · refine ⟨rfl, by decide, by decide, fun entry hentry _ => ?_⟩
    rw [List.mem_singleton.mp hentry]
    decide

/-- Behind a wrapper, an adapter that holds objects is not given the run. -/
theorem encrypted_run_lost :
    ¬∀ (env : MemoryEnv), env.engine.Documented → ∀ adapter : Adapter env.engine,
      (∀ db, adapter.database = some db → (env.engine.content db).saved = none) →
        ∀ inputs, Run.AllStates (step env)
          (fun s => ∀ entry ∈ s.stored, Queryable env s.adapter entry) { adapter } inputs := by
  intro h
  have hlast := (h memoryEnv SqliteEngine.inMemory_documented
    (.wrapped .tenantEncryption (.object (.inMemory {}))) nofun
    [.writeRunAndEmissions (passedRun "r1") [] 1 calmIo]).last
  have hqueryable := hlast ⟨withEmissions (passedRun "r1") [] [], []⟩ (.head _)
  obtain ⟨obj, hobj, _⟩ := hqueryable.run .missing 0 [] (Nat.le_refl 0) rfl
  exact List.not_mem_nil hobj

end StoreLog

/-! ### The rows of a run -/

/-- The objects are one for each emission, with its path and hash. -/
def OneForEach (run : RunRow) (emissions : List EmittedFileRecord) (objects : List MemoryObject) :
    Prop :=
  ∃ shown : List MemoryObject, shown.Perm objects ∧
    emissions.Forall₂ (ShowsEmission run.runId run.taskId) shown

theorem SqliteAdapter.content_of_written {engine : SqliteEngine} (h : engine.Documented)
    {run : RunRow} {emissions : List EmissionRow} {db : engine.Db}
    (hwritten : (SqliteAdapter.writeRunAndEmissions run emissions db).1 = .ok ()) :
    engine.content (SqliteAdapter.writeRunAndEmissions run emissions db).2 =
      ⟨tablesAfter run emissions (engine.content db).current, none⟩ := by
  have hdone := h.transaction_succeeds
    (writeRun run :: .deleteEmissionsByRun run.runId :: emissions.map writeEmission) db
  unfold SqliteAdapter.writeRunAndEmissions at hwritten ⊢
  split
  · next db' htransaction =>
    rw [htransaction] at hdone
    refine (hdone rfl).trans ?_
    rw [List.foldl_cons, List.foldl_cons, foldl_writeEmission]
    rfl
  · next cause db' htransaction =>
    rw [htransaction] at hwritten
    cases hwritten

/-- The rows of the run are those that the write has put into the table. -/
theorem rows_tablesAfter (io : StoreIo) (run : RunRow) (turn : JsNumber)
    (emissions : List EmittedFileRecord) (tables : SqlTables) :
    (SqliteAdapter.tablesAfter run (emissions.mapIdx (emissionRow io run turn))
        tables).emissions.filter (fun e => e.runId = run.runId) =
      (writtenRows io run turn emissions).foldl
        (fun rows row => Table.put EmissionColumns.id row rows) [] := by
  have hnews : ∀ row ∈ writtenRows io run turn emissions, decide (row.runId = run.runId) = true :=
    fun row hrow => decide_eq_true (Lists.forall_mem_of_forall₂
      (forall₂_writtenRows io run turn emissions) (fun _ _ h => h.runId) row hrow)
  have hold : (tables.emissions.filter fun e => e.runId ≠ run.runId).filter
      (fun e => e.runId = run.runId) = [] := by
    rw [List.filter_filter, List.filter_eq_nil_iff]
    intro row _
    simp
  rw [← hold]
  exact Table.filter_foldl_put hnews

/-- The objects that the query returns show these rows. -/
theorem queryEmissions_written (henv : env.engine.Documented) {adapter : Adapter env.engine}
    {db : env.engine.Db} (hdb : adapter.database = some db) {io : StoreIo} {run : RunRow}
    {emissions : List EmittedFileRecord} {turn : JsNumber}
    (hwritten : (writeRunAndEmissions env io run emissions turn adapter).1 = .ok ())
    {disk : DiskFile} {objects : List MemoryObject}
    (hquery : (queryEmissionsForRun env disk run.runId
      (writeRunAndEmissions env io run emissions turn adapter).2.2).1 = .ok objects) :
    objects.Perm (((writtenRows io (withEmissions run (emissions.map (rowId run)) emissions) turn
      emissions).foldl (fun rows row => Table.put EmissionColumns.id row rows) []).map
        emissionRowObject) := by
  obtain ⟨-, hok, hdatabase⟩ := writeRunAndEmissions_database hdb io run emissions turn
  rw [queryEmissionsForRun_database hdatabase] at hquery
  obtain ⟨rows, hrows, rfl⟩ := rowObjects_eq_ok hquery
  have hperm := henv.selectEmissions _ _ _ hrows
  rw [SqliteAdapter.content_of_written henv (hok.mp hwritten)] at hperm
  refine (hperm.map emissionRowObject).trans ?_
  exact .of_eq (congrArg (List.map emissionRowObject) (rows_tablesAfter io _ turn emissions _))

theorem nodup_of_oneForEach {run : RunRow} {emissions : List EmittedFileRecord}
    {objects : List MemoryObject} (h : OneForEach run emissions objects) {io : StoreIo}
    {turn : JsNumber} (hobjects : objects.Perm
      (((writtenRows io (withEmissions run (emissions.map (rowId run)) emissions) turn
        emissions).foldl (fun rows row => Table.put EmissionColumns.id row rows) []).map
          emissionRowObject)) : (emissions.map (rowId run)).Nodup := by
  obtain ⟨shown, hshown, hall⟩ := h
  have hids := ids_writtenRows io (withEmissions run (emissions.map (rowId run)) emissions) turn
    emissions
  have hlength := hall.length_eq.trans (hshown.trans hobjects).length_eq
  rw [List.length_map] at hlength
  have hcount := congrArg List.length hids
  rw [List.length_map, List.length_map] at hcount
  exact hids ▸ Table.nodup_of_length_le (hcount.trans hlength).le

/-- After a write of a run to a database its query returns one row for each emitted file exactly if
the ids of the files are distinct. -/
theorem oneForEach_iff (env : MemoryEnv) (henv : env.engine.Documented)
    (adapter : Adapter env.engine) (db : env.engine.Db) (hdb : adapter.database = some db)
    (io : StoreIo) (run : RunRow) (emissions : List EmittedFileRecord) (turn : JsNumber)
    (hwritten : (writeRunAndEmissions env io run emissions turn adapter).1 = .ok ())
    (disk : DiskFile) (objects : List MemoryObject)
    (hquery : (queryEmissionsForRun env disk run.runId
      (writeRunAndEmissions env io run emissions turn adapter).2.2).1 = .ok objects) :
    OneForEach run emissions objects ↔ (emissions.map (rowId run)).Nodup := by
  have hobjects := queryEmissions_written henv hdb hwritten hquery
  constructor
  · intro h
    exact nodup_of_oneForEach h hobjects
  · intro hnodup
    let written := withEmissions run (emissions.map (rowId run)) emissions
    have hids := ids_writtenRows io written turn emissions
    have hrows : (writtenRows io written turn emissions).foldl
        (fun rows row => Table.put EmissionColumns.id row rows) [] =
          writtenRows io written turn emissions := by
      rw [Table.foldl_put (hids.symm ▸ hnodup), List.filter_nil, List.nil_append]
    rw [hrows] at hobjects
    refine ⟨(writtenRows io written turn emissions).map emissionRowObject, hobjects.symm, ?_⟩
    rw [List.forall₂_map_right_iff]
    exact (forall₂_writtenRows io written turn emissions).imp fun _ _ h => h.shows

/-- A file that is emitted twice. -/
def emittedFile : EmittedFileRecord where
  path := "a.ts"
  sha256 := "0123456789abcdef"
  bytes := 7
  beforeHash := none
  existed := false

/-- The database of a new store. -/
def emptyDatabase : Adapter StoreLog.memoryEnv.engine :=
  .sqlite (⟨{}, none⟩ : Transaction.Content SqlTables)

theorem oneForEach_two_files : ∃ objects,
    OneForEach (StoreLog.passedRun "r1") [emittedFile, { emittedFile with path := "b.ts" }]
      objects :=
  ⟨_, (oneForEach_iff StoreLog.memoryEnv SqliteEngine.inMemory_documented emptyDatabase _ rfl
    StoreLog.calmIo (StoreLog.passedRun "r1") [emittedFile, { emittedFile with path := "b.ts" }] 1
    rfl .missing _ rfl).mpr (by decide)⟩

/-- The same file emitted twice has one row. -/
theorem emitted_twice_stored_once : ∃ objects,
    (writeRunAndEmissions StoreLog.memoryEnv StoreLog.calmIo (StoreLog.passedRun "r1")
      [emittedFile, emittedFile] 1 emptyDatabase).1 = .ok () ∧
    (queryEmissionsForRun StoreLog.memoryEnv .missing "r1"
      (writeRunAndEmissions StoreLog.memoryEnv StoreLog.calmIo (StoreLog.passedRun "r1")
        [emittedFile, emittedFile] 1 emptyDatabase).2.2).1 = .ok objects ∧
    ¬OneForEach (StoreLog.passedRun "r1") [emittedFile, emittedFile] objects := by
  refine ⟨_, rfl, rfl, fun h => ?_⟩
  have hobjects := @queryEmissions_written StoreLog.memoryEnv SqliteEngine.inMemory_documented
    emptyDatabase _ rfl StoreLog.calmIo (StoreLog.passedRun "r1") [emittedFile, emittedFile] 1 rfl
    .missing _ rfl
  exact absurd (nodup_of_oneForEach h hobjects) (by decide)

end KirkForge
