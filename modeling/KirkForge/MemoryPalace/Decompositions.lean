import KirkForge.MemoryPalace.AdapterEquivalence

/-!
# Stored decompositions

`writeDecomposition` and `recallDecomposition` of `MemoryStore` (`memory-palace/src/store.ts`), with
the tokenizer of `routing-engine.ts`. What is recalled is the newest decomposition that has the task
id or an id that contains it, so a task gets its own exactly when none in front of it contains it.
-/

namespace KirkForge

/-! ### Tokens -/

namespace RoutingEngine

def stop : List String := ["the", "and", "for", "with", "that", "this", "from", "into", "using",
  "task", "file", "files", "write", "create", "build", "make"]

def isTokenStart (c : Char) : Bool := ('a' ≤ c && c ≤ 'z') || ('0' ≤ c && c ≤ '9')

def isTokenPart (c : Char) : Bool := isTokenStart c || c = '.' || c = '_' || c = '-'

/-- `text.match(/[a-z0-9][a-z0-9._-]{2,}/g)`; the first characters belong to the match before. -/
def tokenMatches : Nat → List Char → List (List Char)
  | _, [] => []
  | skip + 1, _ :: cs => tokenMatches skip cs
  | 0, c :: cs =>
    let more := cs.takeWhile isTokenPart
    if isTokenStart c ∧ 2 ≤ more.length then (c :: more) :: tokenMatches more.length cs
    else tokenMatches 0 cs

def tokenize (text : String) : List String :=
  let words := (tokenMatches 0 (Text.toLowerCase text).toList).map String.ofList
  (words.eraseDups.filter fun word => word ∉ stop).take 40

example : tokenize "Build a REST API, v1.0-rc" = ["rest", "api", "v1.0-rc"] := by decide

end RoutingEngine

namespace MemoryStore

/-! ### The store -/

/-- The object that `writeDecomposition` writes, at the two times at which the clock is read. -/
def decompositionObject (taskId description : String) (tasks : List JsValue) (language : String)
    (now : Nat) (timestamp : String) : MemoryObject where
  id := "decomp-" ++ taskId ++ "-" ++ toString now
  kind := "task-decomposition"
  taskId
  timestamp
  description
  properties :=
    .cons "language" (.string language) <|
    .cons "taskCount" (.number tasks.length) <|
    .cons "tasks" (.array (tasks.foldr JsElements.cons .nil)) .nil
  tags := ["decomposition", language]

structure RecalledDecomposition where
  taskId : String
  description : String
  tasks : JsValue
  timestamp : String

def recalled (d : MemoryObject) : RecalledDecomposition where
  taskId := d.taskId
  description := d.description
  tasks :=
    match d.properties.get "tasks" with
    | .undefined | .null => .array .nil
    | tasks => tasks
  timestamp := d.timestamp

/-- The object with the best score so far, and the score. -/
def bestMatch (tokens : List String) (decomps : List MemoryObject) : Option MemoryObject × ℚ :=
  decomps.foldl (fun best d =>
    let descTokens := RoutingEngine.tokenize (Text.toLowerCase d.description)
    let overlap := (tokens.filter fun t => t ∈ descTokens).length
    let score : ℚ := overlap / max 1 tokens.length
    if score > best.2 then (some d, score) else best) (none, 0)

/-- The task id is the one that is looked for, or the id contains it. -/
def matchesId (taskIdOrDescription : String) (d : MemoryObject) : Bool :=
  d.taskId = taskIdOrDescription || Text.includes d.id taskIdOrDescription

/-- What is recalled when the adapter answers with the list. -/
def recallFrom (decomps : List MemoryObject) (taskIdOrDescription : String) :
    Option RecalledDecomposition :=
  if decomps.length = 0 then none
  else
    match decomps.find? (matchesId taskIdOrDescription) with
    | some byId => some (recalled byId)
    | none =>
      match bestMatch (RoutingEngine.tokenize (Text.toLowerCase taskIdOrDescription)) decomps with
      | (some best, bestScore) => if bestScore > 1 / 5 then some (recalled best) else none
      | (none, _) => none

/-- A new adapter to which a history of objects is written. -/
inductive HistoryAdapter
  | file (localeCompare : String → String → Ordering) (filePath : String)
  | sqlite (engine : ObservationSelect)

def HistoryAdapter.query (q : AdapterQuery) (history : List MemoryObject) :
    HistoryAdapter → Except String (List MemoryObject)
  | file localeCompare filePath =>
    ((FileAdapter.after filePath history).find localeCompare .missing q).1
  | sqlite engine => SqliteAdapter.query engine q (SqliteAdapter.after history)

/-- The latest decompositions, the newest first. -/
def latestDecompositions (adapter : HistoryAdapter) (history : List MemoryObject) :
    Except String (List MemoryObject) :=
  adapter.query { kind := some "task-decomposition", limit := some ((100 : Nat) : JsNumber) }
    history

def recallDecomposition (adapter : HistoryAdapter) (history : List MemoryObject)
    (taskIdOrDescription : String) : Except String (Option RecalledDecomposition) :=
  (latestDecompositions adapter history).map fun decomps => recallFrom decomps taskIdOrDescription

/-! ### The own decomposition -/

variable {adapter : HistoryAdapter} {history latest : List MemoryObject} {t : String}

/-- If the task has a decomposition in the list, it is recalled. -/
def RecallExact (adapter : HistoryAdapter) (history latest : List MemoryObject) (t : String) :
    Prop :=
  (∃ d ∈ latest, d.taskId = t) →
    ∃ d ∈ latest, d.taskId = t ∧ recallDecomposition adapter history t = .ok (some (recalled d))

/-- No id in front of the decomposition of the task has the task id in it. -/
def Unobscured (latest : List MemoryObject) (t : String) : Prop :=
  ∃ newer own older, latest = newer ++ own :: older ∧ own.taskId = t ∧
    ∀ d ∈ newer, Text.includes d.id t = false

/-- The adapters answer the query. -/
theorem latestDecompositions_ok (adapter : HistoryAdapter) (history : List MemoryObject) :
    ∃ latest, latestDecompositions adapter history = .ok latest := by
  cases adapter with
  | file localeCompare filePath =>
    exact ⟨_, FileAdapter.find_after localeCompare filePath history _⟩
  | sqlite engine =>
    let q : AdapterQuery :=
      { kind := some "task-decomposition", limit := some ((100 : Nat) : JsNumber) }
    have hlimit : sqlLimit (q.limit.getD 1000) = some (some 100) := by decide
    obtain ⟨sorted, -, -, hquery⟩ :=
      SqliteAdapter.query_eq_ok engine (SqliteAdapter.after history) hlimit
    exact ⟨_, hquery⟩

theorem matchesId_own {d : MemoryObject} (h : d.taskId = t) : matchesId t d = true := by
  rw [matchesId, decide_eq_true h, Bool.true_or]

theorem matchesId_other {d : MemoryObject} (h : d.taskId ≠ t) :
    matchesId t d = Text.includes d.id t := by
  rw [matchesId, decide_eq_false h, Bool.false_or]

/-- The first object that is found has the task id if and only if no other comes before it. -/
theorem find?_matchesId_iff :
    (∃ d, latest.find? (matchesId t) = some d ∧ d.taskId = t) ↔ Unobscured latest t := by
  constructor
  · rintro ⟨own, hfind, hown⟩
    obtain ⟨-, newer, older, rfl, hnewer⟩ := List.find?_eq_some_iff_append.mp hfind
    refine ⟨newer, own, older, rfl, hown, fun d hd => ?_⟩
    have hmatch := hnewer d hd
    rw [Bool.not_eq_true', matchesId, Bool.or_eq_false_iff] at hmatch
    exact hmatch.2
  · rintro ⟨newer, own, older, rfl, hown, hnewer⟩
    induction newer with
    | nil => exact ⟨own, List.find?_cons_of_pos (matchesId_own hown), hown⟩
    | cons d newer ih =>
      by_cases hd : d.taskId = t
      · exact ⟨d, List.find?_cons_of_pos (matchesId_own hd), hd⟩
      · have hmatch : matchesId t d = false := by
          rw [matchesId_other hd]
          exact hnewer d List.mem_cons_self
        obtain ⟨first, hfirst, htask⟩ := ih fun d hd => hnewer d (List.mem_cons_of_mem _ hd)
        refine ⟨first, ?_, htask⟩
        rw [List.cons_append, List.find?_cons_of_neg (by rw [hmatch]; exact Bool.false_ne_true)]
        exact hfirst

/-- A decomposition that is found by its id is recalled. -/
theorem recallFrom_of_find? {d : MemoryObject} (h : latest.find? (matchesId t) = some d) :
    recallFrom latest t = some (recalled d) := by
  have hne : latest.length ≠ 0 := (List.length_pos_of_mem (List.mem_of_find?_eq_some h)).ne'
  rw [recallFrom, if_neg hne, h]

/-- A task with a decomposition gets one of its own exactly when no id in front of the first of them
contains the task id. -/
theorem recallDecomposition_exact_iff (adapter : HistoryAdapter) (history : List MemoryObject)
    (t : String) : ∃ latest, latestDecompositions adapter history = .ok latest ∧
      (RecallExact adapter history latest t ↔
        ((∃ d ∈ latest, d.taskId = t) → Unobscured latest t)) := by
  obtain ⟨latest, hlatest⟩ := latestDecompositions_ok adapter history
  refine ⟨latest, hlatest, forall_congr' fun hown => ?_⟩
  obtain ⟨own, hmem, htask⟩ := hown
  have hsome : (latest.find? (matchesId t)).isSome = true :=
    List.find?_isSome.mpr ⟨own, hmem, matchesId_own htask⟩
  obtain ⟨first, hfirst⟩ := Option.isSome_iff_exists.mp hsome
  have hrecall : recallDecomposition adapter history t = .ok (some (recalled first)) := by
    rw [recallDecomposition, hlatest]
    exact congrArg Except.ok (recallFrom_of_find? hfirst)
  rw [← find?_matchesId_iff, hrecall]
  constructor
  · rintro ⟨d, -, hd, hsame⟩
    have htasks := congrArg RecalledDecomposition.taskId (Option.some.inj (Except.ok.inj hsame))
    exact ⟨first, hfirst, htasks.trans hd⟩
  · rintro ⟨d, hd, hdt⟩
    cases Option.some.inj (hfirst.symm.trans hd)
    exact ⟨first, List.mem_of_find?_eq_some hfirst, hdt, rfl⟩

/-- The task `task-1` gets the newer decomposition of the task `task-10`. -/
theorem longer_task_id_recalled :
    let own :=
      decompositionObject "task-1" "Add the parser" [] "ts" 1704067200000 "2024-01-01T00:00:00.000Z"
    let other :=
      decompositionObject "task-10" "Fix the login" [] "ts" 1704153600000 "2024-01-02T00:00:00.000Z"
    latestDecompositions (.file compare "memory.json") [own, other] = .ok [other, own] ∧
      recallDecomposition (.file compare "memory.json") [own, other] "task-1" =
        .ok (some (recalled other)) ∧
      ¬ RecallExact (.file compare "memory.json") [own, other] [other, own] "task-1" := by
  intro own other
  have hlatest : latestDecompositions (.file compare "memory.json") [own, other] =
      .ok [other, own] := by
    have hnewer : (compare other.timestamp own.timestamp).isLE = false := by decide
    rw [latestDecompositions, HistoryAdapter.query, FileAdapter.find_after,
      AdapterQuery.fileResults_pair (n := 100) rfl (by decide) rfl rfl hnewer]
    rfl
  have hother : recallDecomposition (.file compare "memory.json") [own, other] "task-1" =
      .ok (some (recalled other)) := by
    have hmatch : matchesId "task-1" other = true := by decide
    rw [recallDecomposition, hlatest]
    exact congrArg Except.ok (recallFrom_of_find? (List.find?_cons_of_pos hmatch))
  refine ⟨hlatest, hother, fun hexact => ?_⟩
  obtain ⟨d, -, hown, hrecall⟩ :=
    hexact ⟨own, List.mem_cons_of_mem _ (List.mem_singleton_self _), rfl⟩
  rw [hother] at hrecall
  have htask := congrArg RecalledDecomposition.taskId (Option.some.inj (Except.ok.inj hrecall))
  have hsame : "task-10" = "task-1" := htask.trans hown
  revert hsame
  decide

end MemoryStore

end KirkForge
