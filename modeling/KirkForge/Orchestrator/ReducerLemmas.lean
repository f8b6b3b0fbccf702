import KirkForge.Orchestrator.Reducer

/-!
# The reducer as a reading of its history

The abstract state of the reducer is the list of events it has recorded. `Represents r h` relates
the two: under every task and kind `r` stores the events of `h` with that task and kind, in order.
Recording appends to the history and `resetTask` deletes the events of the task. What `reduce`
reads is then stated on the history: the last signal of a kind (`lastSignal`) and, for emissions,
all of them.
-/

namespace KirkForge

/-- The events of a history under one task and kind. -/
def recorded (h : List ReducerSignal) (taskId : String) (kind : SignalKind) :
    List ReducerSignal :=
  h.filter fun s => s.taskId = taskId ∧ s.kind = kind

/-- The payload of the most recent event under a task and a kind. -/
def lastSignal (h : List ReducerSignal) (taskId : String) (kind : SignalKind) :
    Option SignalValue :=
  (recorded h taskId kind).getLast?.map (·.value)

/-- The status of the most recent event of a slot: `none` without an event, `some none` for an
event that carries no status. -/
def lastStatus (h : List ReducerSignal) (taskId : String) (slot : VerifierSlot) :
    Option (Option VerifierStatus) :=
  (lastSignal h taskId (slotToSignal slot)).map SignalValue.status

variable {r : StateReducer} {h own : List ReducerSignal} {t : String}

theorem recorded_append (h own : List ReducerSignal) (t : String) (k : SignalKind) :
    recorded (h ++ own) t k = recorded h t k ++ recorded own t k := List.filter_append ..

theorem mem_recorded {s : ReducerSignal} {k : SignalKind} :
    s ∈ recorded h t k ↔ s ∈ h ∧ s.taskId = t ∧ s.kind = k := by
  simp [recorded]

theorem lastSignal_eq_none_iff {k : SignalKind} :
    lastSignal h t k = none ↔ recorded h t k = [] := by
  simp [lastSignal]

theorem lastSignal_kind {k : SignalKind} {v : SignalValue} (hv : lastSignal h t k = some v) :
    v.kind = k := by
  obtain ⟨s, hs, rfl⟩ := Option.map_eq_some_iff.mp hv
  exact (mem_recorded.mp (List.mem_of_mem_getLast? hs)).2.2

/-- The most recent event is looked for in the later history first. -/
theorem lastSignal_append_of_recorded {k : SignalKind} (hk : recorded own t k ≠ []) :
    lastSignal (h ++ own) t k = lastSignal own t k := by
  rw [lastSignal, recorded_append, List.getLast?_append_of_ne_nil _ hk, lastSignal]

theorem lastSignal_append_of_not_recorded {k : SignalKind} (hk : recorded h t k = []) :
    lastSignal (h ++ own) t k = lastSignal own t k := by
  rw [lastSignal, recorded_append, hk, List.nil_append, lastSignal]

/-- An event is not seen behind a later one of its task and kind. -/
theorem lastSignal_append_cons_of_recorded {e : ReducerSignal}
    (hlater : recorded own e.taskId e.kind ≠ []) (t : String) (k : SignalKind) :
    lastSignal (h ++ e :: own) t k = lastSignal (h ++ own) t k := by
  by_cases hk : e.taskId = t ∧ e.kind = k
  · obtain ⟨rfl, rfl⟩ := hk
    have hcons : recorded (e :: own) e.taskId e.kind ≠ [] := by simp [recorded]
    rw [lastSignal_append_of_recorded hcons, lastSignal_append_of_recorded hlater,
      ← List.singleton_append, lastSignal_append_of_recorded hlater]
  · have hcons : recorded (e :: own) t k = recorded own t k := by simp [recorded, hk]
    rw [lastSignal, lastSignal, recorded_append, recorded_append, hcons]

theorem lastSignal_append_cons_of_not_recorded {e : ReducerSignal}
    (hlater : recorded own e.taskId e.kind = []) :
    lastSignal (h ++ e :: own) e.taskId e.kind = some e.value := by
  have hcons : recorded (e :: own) e.taskId e.kind = [e] := by
    rw [← List.singleton_append, recorded_append, hlater, List.append_nil]
    simp [recorded]
  rw [lastSignal_append_of_recorded (by rw [hcons]; exact List.cons_ne_nil _ _), lastSignal, hcons]
  rfl

theorem lastSignal_ne_none_of_mem {e : ReducerSignal} (he : e ∈ h) :
    lastSignal h e.taskId e.kind ≠ none := by
  rw [Ne, lastSignal_eq_none_iff]
  exact List.ne_nil_of_mem (mem_recorded.mpr ⟨he, rfl, rfl⟩)

/-! ### The history of a reducer -/

/-- `r` stores exactly the events of `h`. -/
def Represents (r : StateReducer) (h : List ReducerSignal) : Prop :=
  ∀ t k, (r.signalsOf t).get? k = if recorded h t k = [] then none else some (recorded h t k)

theorem signalsOf_onSignal (r : StateReducer) (e : ReducerSignal) (t : String) :
    (r.onSignal e).signalsOf t =
      if e.taskId = t then
        (r.signalsOf t).set e.kind ((((r.signalsOf t).get? e.kind).getD []) ++ [e])
      else r.signalsOf t := by
  simp only [StateReducer.signalsOf, StateReducer.onSignal, StateReducer.store,
    OrderedMap.get?_set]
  split
  · next ht => subst ht; rfl
  · rfl

namespace Represents

theorem empty : Represents StateReducer.empty [] := fun _ _ => rfl

theorem getD_get? (H : Represents r h) (t : String) (k : SignalKind) :
    ((r.signalsOf t).get? k).getD [] = recorded h t k := by
  rw [H t k]
  split
  · next hn => rw [hn]; rfl
  · rfl

theorem onSignal (H : Represents r h) (e : ReducerSignal) :
    Represents (r.onSignal e) (h ++ [e]) := by
  intro t k
  rw [signalsOf_onSignal, recorded_append]
  by_cases ht : e.taskId = t
  · by_cases hk : e.kind = k
    · have he : recorded [e] t k = [e] := by simp [recorded, ht, hk]
      rw [if_pos ht, hk, OrderedMap.get?_set_self, H.getD_get?, he, if_neg (by simp)]
    · have he : recorded [e] t k = [] := by simp [recorded, hk]
      rw [if_pos ht, OrderedMap.get?_set_of_ne _ hk, H t k, he, List.append_nil]
  · have he : recorded [e] t k = [] := by simp [recorded, ht]
    rw [if_neg ht, H t k, he, List.append_nil]

theorem recordAll (H : Represents r h) (events : List ReducerSignal) :
    Represents (r.recordAll events) (h ++ events) := by
  induction events generalizing r h with
  | nil => rwa [List.append_nil]
  | cons e events ih =>
    have := ih (H.onSignal e)
    rwa [List.append_assoc] at this

theorem resetTask (H : Represents r h) (taskId : String) :
    Represents (r.resetTask taskId) (h.filter fun s => s.taskId ≠ taskId) := by
  intro t k
  have hfilter : recorded (h.filter fun s => s.taskId ≠ taskId) t k =
      if taskId = t then [] else recorded h t k := by
    simp only [recorded, List.filter_filter]
    split
    · next ht => subst ht; exact List.filter_eq_nil_iff.mpr fun s _ => by simp; tauto
    · next ht =>
      refine List.filter_congr fun s _ => ?_
      by_cases hs : s.taskId = t
      · simp [hs, show t ≠ taskId from fun e => ht e.symm]
      · simp [hs]
  rw [hfilter, StateReducer.resetTask, StateReducer.signalsOf, OrderedMap.get?_delete]
  split
  · rfl
  · exact H t k

theorem get (H : Represents r h) (t : String) (k : SignalKind) :
    (r.signalsOf t).get k = lastSignal h t k := by
  rw [SignalMap.get, H t k, lastSignal]
  split
  · next hn => rw [hn]; rfl
  · rfl

theorem has (H : Represents r h) (t : String) (k : SignalKind) :
    (r.signalsOf t).has k = (lastSignal h t k).isSome := by
  rw [OrderedMap.has, H t k]
  split
  · next hn => rw [lastSignal_eq_none_iff.mpr hn]; rfl
  · next hn => exact (Option.isSome_iff_ne_none.mpr (mt lastSignal_eq_none_iff.mp hn)).symm

end Represents

/-! ### What `reduce` reads -/

/-- Two signal maps that `reduce` cannot tell apart, up to the list of contributing signals. -/
structure SameView (m m' : SignalMap) : Prop where
  get : ∀ k, m.get k = m'.get k
  has : ∀ k, m.has k = m'.has k
  emissions : m.emissions = m'.emissions

/-- Everything in a packet except the list of contributing signals. -/
def ReducedStatePacket.judgement (p : ReducedStatePacket) : ReducedStatePacket :=
  { p with contributingSignals := [] }

namespace SameView

variable {m m' : SignalMap}

theorem notApplicable (H : SameView m m') : m.notApplicable = m'.notApplicable := by
  funext policy
  cases policy <;> simp [SignalMap.notApplicable, H.has]

theorem missingRequired (H : SameView m m') : m.missingRequired = m'.missingRequired := by
  funext policy
  simp only [SignalMap.missingRequired, H.get]

theorem skippedRequired (H : SameView m m') : m.skippedRequired = m'.skippedRequired := by
  funext policy
  simp only [SignalMap.skippedRequired, H.get]

theorem lint (H : SameView m m') : m.lint = m'.lint := by
  have hS : m.lintS = m'.lintS := by rw [SignalMap.lintS, SignalMap.lintS, H.get]
  funext nac
  rw [SignalMap.lint, SignalMap.lint, hS]

theorem types (H : SameView m m') : m.types = m'.types := by
  have hS : m.typesS = m'.typesS := by rw [SignalMap.typesS, SignalMap.typesS, H.get]
  funext nac
  rw [SignalMap.types, SignalMap.types, hS]

theorem sec (H : SameView m m') : m.sec = m'.sec := by
  have hS : m.secS = m'.secS := by rw [SignalMap.secS, SignalMap.secS, H.get]
  funext nac
  rw [SignalMap.sec, SignalMap.sec, hS]

theorem imports (H : SameView m m') : m.imports = m'.imports := by
  have hS : m.importsS = m'.importsS := by rw [SignalMap.importsS, SignalMap.importsS, H.get]
  funext nac
  rw [SignalMap.imports, SignalMap.imports, hS]

theorem changes (H : SameView m m') : m.changes = m'.changes := by
  have hS : m.changesS = m'.changesS := by rw [SignalMap.changesS, SignalMap.changesS, H.get]
  rw [SignalMap.changes, SignalMap.changes, hS]

theorem graph (H : SameView m m') : m.graph = m'.graph := by
  have hS : m.graphS = m'.graphS := by rw [SignalMap.graphS, SignalMap.graphS, H.get]
  funext nac
  rw [SignalMap.graph, SignalMap.graph, hS]

theorem artifactEnforcement (H : SameView m m') :
    m.artifactEnforcement = m'.artifactEnforcement := by
  have hb : m.blockedS = m'.blockedS := by rw [SignalMap.blockedS, SignalMap.blockedS, H.get]
  have hu : m.unterminatedS = m'.unterminatedS := by
    rw [SignalMap.unterminatedS, SignalMap.unterminatedS, H.get]
  have ht : m.truncatedS = m'.truncatedS := by
    rw [SignalMap.truncatedS, SignalMap.truncatedS, H.get]
  unfold SignalMap.artifactEnforcement SignalMap.blockedPaths SignalMap.parseWarnings
  rw [hb, hu, ht]

theorem reduce (H : SameView m m') (taskId : String) (turn : Nat)
    (policy : Option VerifierPolicy) (policyHash : Option String) (now : String) :
    (m.reduce taskId turn policy policyHash now).judgement =
      (m'.reduce taskId turn policy policyHash now).judgement := by
  have hover : m.overall = m'.overall := by
    funext policy base
    cases policy <;> simp only [SignalMap.overall, H.missingRequired, H.skippedRequired]
  have hpol : m.verifierPolicyResult = m'.verifierPolicyResult := by
    funext policy
    simp only [SignalMap.verifierPolicyResult, H.missingRequired, H.skippedRequired]
  simp only [SignalMap.reduce, ReducedStatePacket.judgement, H.notApplicable, H.lint, H.types,
    H.sec, H.imports, H.changes, H.graph, H.artifactEnforcement, H.emissions, hover, hpol]

end SameView

end KirkForge
