import KirkForge.MemoryPalace.Retention
import KirkForge.MemoryPalace.RoutingEngine
import KirkForge.MemoryPalace.SharedFile
import KirkForge.Theory.JsMembers

/-!
# Stored observations

`writeTaskObservation` of `MemoryStore` (`memory-palace/src/store.ts`) and what its two readers see:
the scoring of `recall` (`routing-engine.ts`) and `loadFromStore` (`classifier-persistence.ts`). The
class of the outcome and the lesson are not written. Each reader has its own value for a missing
field, so what was given is seen only where it happens to be that value (`seenAsGiven_iff`).
-/

namespace KirkForge

inductive OutcomeClass
  | pass | taskFail | validatorError | toolError | escalated | unknown
  deriving DecidableEq, Repr

def OutcomeClass.name : OutcomeClass → String
  | pass => "pass"
  | taskFail => "task_fail"
  | validatorError => "validator_error"
  | toolError => "tool_error"
  | escalated => "escalated"
  | unknown => "unknown"

inductive RoutingLesson
  | reward | punish | neutral
  deriving DecidableEq, Repr

def RoutingLesson.name : RoutingLesson → String
  | reward => "reward"
  | punish => "punish"
  | neutral => "neutral"

/-- What is given to `writeTaskObservation`, as far as it is looked at or dropped. -/
structure TaskObservationInput where
  taskId : String
  description : String
  taskFamily : Option String := none
  language : String
  mode : String
  model : String
  providerKey : Option String := none
  providerType : Option String := none
  promptShape : Option String := none
  verifierOverall : Option String := none
  finalAction : Option String := none
  /-- `null` is `some none`. -/
  taskPass : Option (Option Bool) := none
  outcome : Option RoutingEngine.Outcome := none
  outcomeClass : Option OutcomeClass := none
  routingLesson : Option RoutingLesson := none
  reason : Option String := none
  tokens : JsNumber
  durationMs : JsNumber
  turns : Option JsNumber := none
  finalVerdict : Option String := none
  sourceOfTruth : Option String := none
  taskValidation : JsValue := .undefined

namespace TaskObservationInput

def inferredOutcome (params : TaskObservationInput) : RoutingEngine.Outcome :=
  params.outcome.getD <|
    if params.taskPass = some (some true) then .pass
    else if params.taskPass = some (some false) then .fail
    else .error

def taskPassValue : Option (Option Bool) → JsValue
  | none => .undefined
  | some none => .null
  | some (some b) => .bool b

def reasonText (params : TaskObservationInput) : String :=
  params.reason.getD <|
    match params.inferredOutcome with
    | .pass => "task passed"
    | .fail => "task tests failed"
    | .error => "task outcome unknown"

def numbers (list : List ℚ) : JsValue :=
  .array (list.foldr (fun q rest => .cons (.number (.finite q)) rest) .nil)

/-- The properties that are written. -/
def properties (params : TaskObservationInput) : JsMembers :=
  let tokens := RoutingEngine.tokenize params.description
  let vector := RoutingEngine.vectorize tokens 64
  .cons "language" (.string params.language) <|
  .cons "taskFamily"
    (.string (params.taskFamily.getD (RoutingEngine.detectFamily params.description))) <|
  .cons "mode" (.string params.mode) <|
  .cons "model" (.string params.model) <|
  .cons "providerKey" (.optional params.providerKey) <|
  .cons "providerType" (.optional params.providerType) <|
  .cons "promptShape" (.optional params.promptShape) <|
  .cons "verifierOverall" (.optional params.verifierOverall) <|
  .cons "finalAction" (.optional params.finalAction) <|
  .cons "taskPass" (taskPassValue params.taskPass) <|
  .cons "outcome" (.string params.inferredOutcome.name) <|
  .cons "reason" (.string params.reasonText) <|
  .cons "tokens" (.number params.tokens) <|
  .cons "durationMs" (.number params.durationMs) <|
  .cons "turns" ((params.turns.map JsValue.number).getD .undefined) <|
  .cons "finalVerdict" (.optional params.finalVerdict) <|
  .cons "sourceOfTruth" (.optional params.sourceOfTruth) <|
  .cons "taskValidation" params.taskValidation <|
  .cons "tokens_description" (.ofStrings tokens) <|
  .cons "vector" (numbers vector) .nil

end TaskObservationInput

namespace MemoryStore

/-- The object that `writeTaskObservation` writes, at the two times at which the clock is read. -/
def taskObservation (params : TaskObservationInput) (now : Nat) (random timestamp : String) :
    MemoryObject where
  id := "observation-" ++ params.taskId ++ "-" ++ toString now ++ "-" ++ random
  kind := "task-observation"
  taskId := params.taskId
  timestamp
  description := params.description
  properties := params.properties
  tags := [params.language, params.mode, params.inferredOutcome.name].filter (· ≠ "")

end MemoryStore

/-- `v ?? w` -/
def JsValue.orElse (v w : JsValue) : JsValue :=
  match v with
  | .undefined | .null => w
  | v => v

/-- The class of the outcome that `loadFromStore` goes by. -/
def ClassifierMemory.outcomeClassOf (env : RoutingEngine.Env) (obs : MemoryObject) : String :=
  RoutingEngine.text env
    ((obs.properties.get "outcomeClass").orElse (obs.properties.get "outcome")) "unknown"

/-- Both readers see the values that were given. -/
structure SeenAsGiven (env : RoutingEngine.Env) (params : TaskObservationInput) (o : MemoryObject) :
    Prop where
  outcomeClass : ∀ c, params.outcomeClass = some c →
    RoutingEngine.outcomeClassOf env o = c.name ∧ ClassifierMemory.outcomeClassOf env o = c.name
  routingLesson : ∀ l, params.routingLesson = some l → RoutingEngine.routingLessonOf env o = l.name

/-! ### A store over time -/

/-- An adapter, with what it meets with. The file is that of a `FileAdapter`. -/
structure OpenStore where
  io : RetentionIo
  adapter : RetentionAdapter

inductive StoreEvent
  /-- A write; a file may be locked, and a database may refuse. -/
  | write (succeeds : Bool) (obj : MemoryObject)
  | query (q : AdapterQuery)
  /-- A `persist` that rewrites the file. -/
  | persist
  /-- The adapter is closed, and another one is opened on what it has left. -/
  | reopen

def DiskFile.list : DiskFile → List MemoryObject
  | .objects list => list
  | _ => []

namespace OpenStore

def write (s : OpenStore) (succeeds : Bool) (obj : MemoryObject) : OpenStore :=
  match s.adapter with
  | .file a => { s with adapter := .file (a.write succeeds s.io.disk obj).2 }
  | .inMemory a => { s with adapter := .inMemory (a.write obj).2 }
  | .sqlite rows =>
    if succeeds then { s with adapter := .sqlite (SqliteAdapter.writeObservation rows obj) } else s

def persist (s : OpenStore) : OpenStore :=
  match s.adapter with
  | .file a => { s with io.disk := .objects (a.objects.map MemoryObject.revive) }
  | _ => s

def reopen (s : OpenStore) : OpenStore :=
  match s.adapter with
  | .file a => { s with adapter := .file { filePath := a.filePath } }
  | .inMemory _ => { s with adapter := .inMemory {} }
  | .sqlite _ => s

def step (s : OpenStore) : StoreEvent → OpenStore
  | .write succeeds obj => s.write succeeds obj
  | .query q => { s with adapter := (s.adapter.query s.io q).2 }
  | .persist => s.persist
  | .reopen => s.reopen

/-- The objects of the file, those in memory and those of the rows. -/
def held (s : OpenStore) : List MemoryObject :=
  match s.adapter with
  | .file a => a.objects ++ s.io.disk.list
  | .inMemory a => a.objects
  | .sqlite rows => rows.map SqliteAdapter.rowToObject

end OpenStore

/-- A query of a store finds what was written to it under the id of an object and nothing else was
written under. -/
structure ReadLater (obj o : MemoryObject) : Prop where
  id : o.id = obj.id
  found : ∃ (s : OpenStore) (events : List StoreEvent) (q : AdapterQuery)
      (list : List MemoryObject),
    (∀ x ∈ s.held, x.id ≠ obj.id) ∧
      (∀ succeeds x, StoreEvent.write succeeds x ∈ events → x.id = obj.id → x = obj) ∧
      ((Run.run OpenStore.step s events).adapter.query (Run.run OpenStore.step s events).io q).1 =
        .ok list ∧ o ∈ list

/-! ### What becomes of an object -/

theorem FileAdapter.mem_load {a : FileAdapter} {disk : DiskFile} {o : MemoryObject}
    (h : o ∈ (a.load disk).objects) : o ∈ a.objects ++ disk.list := by
  unfold FileAdapter.load at h
  split at h
  · exact List.mem_append_left _ h
  · cases disk with
    | objects list => exact List.mem_append_right _ h
    | _ => cases h

theorem FileAdapter.mem_write {a : FileAdapter} {lock : Bool} {disk : DiskFile}
    {obj o : MemoryObject} (h : o ∈ (a.write lock disk obj).2.objects) :
    o ∈ a.objects ++ disk.list ∨ o = obj := by
  rw [write] at h
  split at h
  · dsimp only at h
    split at h
    · exact .inl (mem_load h)
    · obtain h | h := List.mem_append.mp h
      · exact .inl (mem_load h)
      · exact .inr (List.mem_singleton.mp h)
  · exact .inl (List.mem_append_left _ h)

namespace OpenStore

theorem mem_held_of_query {s : OpenStore} {q : AdapterQuery} {list : List MemoryObject}
    (h : (s.adapter.query s.io q).1 = .ok list) {o : MemoryObject} (ho : o ∈ list) :
    o ∈ s.held := by
  have hmem := RetentionAdapter.mem_stored_of_query h ho
  obtain ⟨io, adapter⟩ := s
  cases adapter with
  | file a => exact FileAdapter.mem_load hmem
  | _ => exact hmem

/-- What is held after an event was held before it, is what JSON makes of something that was, or has
been written. -/
theorem mem_held_step {s : OpenStore} {e : StoreEvent} {o : MemoryObject}
    (h : o ∈ (s.step e).held) : o ∈ s.held ∨ (∃ o' ∈ s.held, o = o'.revive) ∨
      ∃ succeeds obj, e = .write succeeds obj ∧
        (o = obj ∨ o = SqliteAdapter.rowToObject (SqliteAdapter.observationRow obj)) := by
  obtain ⟨io, adapter⟩ := s
  cases e with
  | write succeeds obj =>
    cases adapter with
    | file a =>
      obtain h | h := List.mem_append.mp h
      · obtain h | h := FileAdapter.mem_write h
        · exact .inl h
        · exact .inr (.inr ⟨_, _, rfl, .inl h⟩)
      · exact .inl (List.mem_append_right _ h)
    | inMemory a =>
      obtain h | h := List.mem_append.mp h
      · exact .inl h
      · exact .inr (.inr ⟨_, _, rfl, .inl (List.mem_singleton.mp h)⟩)
    | sqlite rows =>
      cases succeeds with
      | false => exact .inl h
      | true =>
        obtain ⟨row, hrow, rfl⟩ := List.mem_map.mp h
        obtain rfl | ⟨hrow, -⟩ := Table.mem_put.mp hrow
        · exact .inr (.inr ⟨_, _, rfl, .inr rfl⟩)
        · exact .inl (List.mem_map_of_mem hrow)
  | query q =>
    rw [step, RetentionAdapter.query_snd] at h
    cases adapter with
    | file a =>
      obtain h | h := List.mem_append.mp h
      · exact .inl (FileAdapter.mem_load h)
      · exact .inl (List.mem_append_right _ h)
    | _ => exact .inl h
  | persist =>
    cases adapter with
    | file a =>
      obtain h | h := List.mem_append.mp h
      · exact .inl (List.mem_append_left _ h)
      · obtain ⟨o', ho', rfl⟩ := List.mem_map.mp h
        exact .inr (.inl ⟨o', List.mem_append_left _ ho', rfl⟩)
    | _ => exact .inl h
  | reopen =>
    cases adapter with
    | file a => exact .inl (List.mem_append_right _ h)
    | inMemory a => cases h
    | sqlite rows => exact .inl h

end OpenStore

/-- The properties are those that were written, or what JSON keeps of them. -/
def IsCopy (obj o : MemoryObject) : Prop :=
  o.properties = obj.properties ∨
    o.properties = JsValue.ofFields (JsValue.membersToJson obj.properties)

theorem IsCopy.revive {obj o : MemoryObject} (h : IsCopy obj o) : IsCopy obj o.revive := by
  refine .inr ?_
  obtain h | h := h
  · rw [MemoryObject.revive, h]
  · simp only [MemoryObject.revive, h, JsValue.membersToJson_ofFields]

theorem isCopy_row (obj : MemoryObject) :
    IsCopy obj (SqliteAdapter.rowToObject (SqliteAdapter.observationRow obj)) := by
  rw [SqliteAdapter.rowToObject_observationRow]
  exact .inr rfl

/-- All that is held under the id of an object is a copy of it. -/
def Copies (obj : MemoryObject) (s : OpenStore) : Prop :=
  ∀ o ∈ s.held, o.id = obj.id → IsCopy obj o

theorem Copies.step {obj : MemoryObject} {s : OpenStore} (h : Copies obj s) {e : StoreEvent}
    (he : ∀ succeeds x, e = .write succeeds x → x.id = obj.id → x = obj) :
    Copies obj (s.step e) := by
  intro o ho hid
  obtain ho | ⟨o', ho', rfl⟩ | ⟨succeeds, x, rfl, rfl | rfl⟩ := OpenStore.mem_held_step ho
  · exact h o ho hid
  · exact (h o' ho' hid).revive
  · obtain rfl := he succeeds o rfl hid
    exact .inl rfl
  · obtain rfl := he succeeds x rfl hid
    exact isCopy_row x

theorem Copies.run {obj : MemoryObject} {s : OpenStore} (h : Copies obj s)
    {events : List StoreEvent}
    (hevents : ∀ succeeds x, StoreEvent.write succeeds x ∈ events → x.id = obj.id → x = obj) :
    Copies obj (Run.run OpenStore.step s events) := by
  induction events generalizing s with
  | nil => exact h
  | cons e events ih =>
    refine ih (h.step fun succeeds x he => ?_) fun succeeds x hx =>
      hevents succeeds x (List.mem_cons_of_mem _ hx)
    exact hevents succeeds x (he ▸ List.mem_cons_self)

theorem ReadLater.isCopy {obj o : MemoryObject} (h : ReadLater obj o) : IsCopy obj o := by
  obtain ⟨s, events, q, list, hfresh, hevents, hquery, ho⟩ := h.found
  have hcopies : Copies obj s := fun x hx hid => absurd hid (hfresh x hx)
  exact hcopies.run hevents o (OpenStore.mem_held_of_query hquery ho) h.id

/-! ### What the readers see -/

variable {env : RoutingEngine.Env} {params : TaskObservationInput}

theorem nodup_properties (params : TaskObservationInput) : params.properties.keys.Nodup := by
  simp [TaskObservationInput.properties, JsMembers.keys]

/-- A text and a missing member are read as they were written. -/
theorem IsCopy.get {obj o : MemoryObject} (h : IsCopy obj o) (hkeys : obj.properties.keys.Nodup)
    {key : String} {v : JsValue} (hv : obj.properties.get key = v)
    (hjson : ((JsValue.toJson v).map JsValue.ofJson).getD .undefined = v) :
    o.properties.get key = v := by
  obtain h | h := h
  · rw [h, hv]
  · rw [h, JsMembers.get_ofFields_toJson hkeys, hv, hjson]

theorem normalizeOutcome_name (outcome : RoutingEngine.Outcome) :
    RoutingEngine.normalizeOutcome (.string outcome.name) = outcome := by
  cases outcome <;> rfl

section
variable {now : Nat} {random timestamp : String} {o : MemoryObject}
  (h : IsCopy (MemoryStore.taskObservation params now random timestamp) o)

include h

theorem outcome_of_isCopy :
    o.properties.get "outcome" = .string params.inferredOutcome.name :=
  h.get (nodup_properties params) rfl rfl

theorem outcomeClass_of_isCopy : o.properties.get "outcomeClass" = .undefined :=
  h.get (nodup_properties params) rfl rfl

theorem routingLesson_of_isCopy : o.properties.get "routingLesson" = .undefined :=
  h.get (nodup_properties params) rfl rfl

theorem recalled_outcomeClass : RoutingEngine.outcomeClassOf env o = "unknown" := by
  rw [RoutingEngine.outcomeClassOf, outcomeClass_of_isCopy h, RoutingEngine.text]

theorem learned_outcomeClass :
    ClassifierMemory.outcomeClassOf env o = params.inferredOutcome.name := by
  rw [ClassifierMemory.outcomeClassOf, outcomeClass_of_isCopy h, outcome_of_isCopy h,
    JsValue.orElse, RoutingEngine.text]

theorem recalled_routingLesson : RoutingEngine.routingLessonOf env o =
    RoutingEngine.derivedLesson params.inferredOutcome := by
  rw [RoutingEngine.routingLessonOf, routingLesson_of_isCopy h, RoutingEngine.text,
    RoutingEngine.outcomeOf, outcome_of_isCopy h, normalizeOutcome_name]
  rfl

end

theorem inferredOutcome_ne_unknown (outcome : RoutingEngine.Outcome) :
    outcome.name ≠ OutcomeClass.unknown.name := by
  cases outcome <;> decide

/-- What was given is seen just if no class is given, and a lesson is the one of the outcome. -/
theorem seenAsGiven_iff {now : Nat} {random timestamp : String} {o : MemoryObject}
    (h : ReadLater (MemoryStore.taskObservation params now random timestamp) o) :
    SeenAsGiven env params o ↔ params.outcomeClass = none ∧
      ∀ l, params.routingLesson = some l →
        l.name = RoutingEngine.derivedLesson params.inferredOutcome := by
  have hcopy := h.isCopy
  constructor
  · refine fun hseen => ⟨Option.eq_none_iff_forall_ne_some.mpr fun c hc => ?_, fun l hl => ?_⟩
    · obtain ⟨hrecalled, hlearned⟩ := hseen.outcomeClass c hc
      rw [recalled_outcomeClass hcopy] at hrecalled
      rw [learned_outcomeClass hcopy, ← hrecalled] at hlearned
      exact inferredOutcome_ne_unknown _ hlearned
    · rw [← hseen.routingLesson l hl, recalled_routingLesson hcopy]
  · rintro ⟨hclass, hlesson⟩
    refine ⟨fun c hc => ?_, fun l hl => ?_⟩
    · rw [hclass] at hc
      cases hc
    · rw [recalled_routingLesson hcopy, hlesson l hl]

/-! ### Observations that are read -/

theorem readLater_inMemory (obj : MemoryObject) : ReadLater obj obj := by
  let io : RetentionIo := { localeCompare := compare, disk := .missing, table := .inMemory }
  refine ⟨rfl, ⟨io, .inMemory {}⟩, [.write true obj], {}, [obj], nofun,
    fun succeeds x hx hid => ?_, ?_, List.mem_singleton_self obj⟩
  · cases List.mem_singleton.mp hx
    rfl
  · have hfilter : [obj].filter (MemoryQuery.selects {}) = [obj] :=
      List.filter_eq_self.mpr fun _ _ => rfl
    have hresults : MemoryQuery.results compare {} [obj] = [obj] := by
      show ([obj].filter (MemoryQuery.selects {})).mergeSort _ = [obj]
      rw [hfilter, List.mergeSort_singleton]
    have hanswer : AdapterQuery.fileResults compare {} [obj] = [obj] := by
      show (MemoryQuery.results compare {} [obj]).take
        (MemoryQuery.results compare {} [obj]).length = [obj]
      rw [hresults, List.take_length]
    exact congrArg Except.ok hanswer

/-- A session that was escalated although no test of the task had failed. -/
def escalated : TaskObservationInput where
  taskId := "t1"
  description := "repair the build"
  language := "python"
  mode := "artifact"
  model := "alpha"
  finalAction := some "escalate"
  taskPass := some none
  outcome := some .fail
  outcomeClass := some .escalated
  routingLesson := some .neutral
  tokens := 100
  durationMs := 1000

theorem seenAsGiven_without_class :
    SeenAsGiven RoutingEngine.squareEnv { escalated with outcomeClass := none, outcome := none }
      (MemoryStore.taskObservation { escalated with outcomeClass := none, outcome := none } 0
        "00000000" "2026-01-01T00:00:00.000Z") :=
  (seenAsGiven_iff (readLater_inMemory _)).mpr ⟨rfl, fun l hl => by cases hl; rfl⟩

/-- It was to be neutral, counts against the model, and its class is unknown to one reader and a
failure to the other. -/
theorem escalated_is_punished : ∃ o,
    ReadLater (MemoryStore.taskObservation escalated 0 "00000000" "2026-01-01T00:00:00.000Z") o ∧
      RoutingEngine.routingLessonOf RoutingEngine.squareEnv o = "punish" ∧
      RoutingEngine.scored RoutingEngine.squareEnv o = some false ∧
      RoutingEngine.outcomeClassOf RoutingEngine.squareEnv o = "unknown" ∧
      ClassifierMemory.outcomeClassOf RoutingEngine.squareEnv o = "fail" ∧
      ¬SeenAsGiven RoutingEngine.squareEnv escalated o := by
  refine ⟨_, readLater_inMemory _, rfl, rfl, rfl, rfl, fun hseen => ?_⟩
  exact absurd (hseen.routingLesson .neutral rfl) (by decide)

end KirkForge
