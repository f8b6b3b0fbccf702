import KirkForge.Orchestrator.ClassifierNlp
import KirkForge.Theory.JsNumber
import KirkForge.Theory.Run
import Mathlib.Logic.Function.Basic

/-!
# What the classifier has learned

`ClassifierMemory` (`classifier-persistence.ts`) and the model that `classifier-nlp.ts` keeps for
all of them. The model is built from the memory of the first call after a reset and answers every
later call, whatever its memory is; `classifications_isolated` says when this goes unnoticed.
-/

namespace KirkForge

/-- The table `OUTCOME_WEIGHTS`. What it inherits is no number, but is neither missing nor zero, and
like NaN not above zero. -/
def outcomeWeight (outcomeClass : String) : Option JsNumber :=
  match outcomeClass with
  | "pass" => some 1
  | "task_fail" => some (.finite (-3 / 10))
  | "validator_error" | "tool_error" => some (.finite (-1 / 10))
  | "escalated" | "unknown" => some 0
  | _ => if outcomeClass ∈ inheritedProperties then some .nan else none

/-- The texts of a stored observation, with what stands in for a missing one. -/
structure Observation where
  description : String
  mode : DelegationMode
  outcomeClass : String
  timestamp : String

structure ClassifierMemory.LearnedExample where
  tokens : List String
  mode : DelegationMode
  weight : JsNumber
  timestamp : String

structure ClassifierMemory where
  learned : List ClassifierMemory.LearnedExample := []
  loadedFromStore : Bool := false

namespace ClassifierMemory

/-- The memory after `learn`, and whether the model is reset. -/
def learn (m : ClassifierMemory) (description : String) (mode : DelegationMode)
    (outcomeClass : String) (weight : Option JsNumber) (now : String) : ClassifierMemory × Bool :=
  let w := weight.getD ((outcomeWeight outcomeClass).getD 0)
  if w = 0 then (m, false)
  else
    let tokens := Nlp.words description
    if tokens.length < 2 then (m, false)
    else
      let learned := m.learned ++ [{ tokens, mode, weight := w, timestamp := now }]
      ({ m with
        learned :=
          if learned.length > 1000 then learned.drop (learned.length - 1000) else learned }, true)

/-- What `loadFromStore` learns from an observation. -/
def ofObservation (obs : Observation) : Option LearnedExample :=
  let weight := (outcomeWeight obs.outcomeClass).getD 0
  let tokens := Nlp.words obs.description
  if weight = 0 ∨ tokens.length < 2 then none
  else some { tokens, mode := obs.mode, weight, timestamp := obs.timestamp }

/-- `loadFromStore` from the result of the query on, which may be an error. -/
def load (m : ClassifierMemory) (result : Option (List Observation)) : ClassifierMemory × Bool :=
  match result with
  | none => (m, false)
  | some observations =>
    let loaded := observations.filterMap ofObservation
    ({ learned := m.learned ++ loaded, loadedFromStore := true }, loaded.length > 0)

/-- The examples that `getModel` looks at. -/
def positives (learned : List LearnedExample) : List Nlp.PositiveExample :=
  (learned.filter fun ex => JsNumber.gt ex.weight 0).map fun ex => (ex.mode, ex.tokens)

end ClassifierMemory

namespace Nlp

/-- A model, with the examples that it was built from. -/
structure BuiltModel {α : Type} (ops : FloatOps α) where
  examples : List PositiveExample
  model : TfIdfModel α
  built : model = buildModel ops examples

/-- A call of `classifyNlp` that has returned: the examples that its memory had, and its result. -/
structure Classification (α : Type) where
  description : String
  learned : List ClassifierMemory.LearnedExample
  result : NlpResult α

/-- Memories, the calls of `loadFromStore` that wait for the store, and the one model. -/
structure Classifier (ι : Type) {α : Type} (ops : FloatOps α) where
  memory : ι → ClassifierMemory := fun _ => {}
  loading : ι → Nat := fun _ => 0
  model : Option (BuiltModel ops) := none
  classifications : List (Classification α) := []

inductive ClassifierInput (ι : Type)
  | learn (i : ι) (description : String) (mode : DelegationMode) (outcomeClass : String)
    (weight : Option JsNumber) (now : String)
  /-- A call of `loadFromStore`, up to the query. -/
  | loadFromStore (i : ι)
  /-- The query of such a call has ended. -/
  | queried (i : ι) (result : Option (List Observation))
  | reset (i : ι)
  | classifyNlp (description : String) (memory : Option ι)

namespace Classifier

variable {ι α : Type} [DecidableEq ι] {ops : FloatOps α}

/-- The examples of the memory that a call passes, if it passes one. -/
def learned (s : Classifier ι ops) (memory : Option ι) :
    List ClassifierMemory.LearnedExample :=
  (memory.map fun i => (s.memory i).learned).getD []

/-- A memory changes, and the model is reset or not. -/
def change (s : Classifier ι ops) (i : ι) (m : ClassifierMemory × Bool) : Classifier ι ops :=
  { s with
    memory := Function.update s.memory i m.1
    model := if m.2 then none else s.model }

def getModel (s : Classifier ι ops) (memory : Option ι) : BuiltModel ops :=
  match s.model with
  | some built => built
  | none =>
    let examples := ClassifierMemory.positives (s.learned memory)
    { examples, model := buildModel ops examples, built := rfl }

def step (s : Classifier ι ops) : ClassifierInput ι → Classifier ι ops
  | .learn i description mode outcomeClass weight now =>
    s.change i ((s.memory i).learn description mode outcomeClass weight now)
  | .loadFromStore i =>
    if (s.memory i).loadedFromStore then s
    else { s with loading := Function.update s.loading i (s.loading i + 1) }
  | .queried i result =>
    if s.loading i = 0 then s
    else
      let s := { s with loading := Function.update s.loading i (s.loading i - 1) }
      s.change i ((s.memory i).load result)
  | .reset i => s.change i ({}, true)
  | .classifyNlp description memory =>
    let built := s.getModel memory
    { s with
      model := some built
      classifications := s.classifications ++
        [{ description
           learned := s.learned memory
           result := classify ops built.model description }] }

/-- Each result is that of a model built from the examples of the memory alone. -/
def Isolated (s : Classifier ι ops) : Prop :=
  ∀ c ∈ s.classifications,
    c.result = classify ops (buildModel ops (ClassifierMemory.positives c.learned)) c.description

/-- A model that is there was built from the examples that the memory of the call has. -/
def OwnModel (s : Classifier ι ops) : ClassifierInput ι → Prop
  | .classifyNlp _ memory => ∀ built, s.model = some built →
      built.examples = ClassifierMemory.positives (s.learned memory)
  | _ => True

omit [DecidableEq ι] in
theorem getModel_examples {s : Classifier ι ops} {memory : Option ι}
    (hown : ∀ built, s.model = some built →
      built.examples = ClassifierMemory.positives (s.learned memory)) :
    (s.getModel memory).examples = ClassifierMemory.positives (s.learned memory) := by
  rw [getModel.eq_def]
  split
  · next built hbuilt => exact hown built hbuilt
  · rfl

theorem Isolated.step {s : Classifier ι ops} (h : s.Isolated) (input : ClassifierInput ι)
    (hown : OwnModel s input) : (s.step input).Isolated := by
  cases input with
  | learn | reset => exact h
  | loadFromStore i =>
    rw [Classifier.step]
    split <;> exact h
  | queried i result =>
    rw [Classifier.step]
    split <;> exact h
  | classifyNlp description memory =>
    intro c hc
    obtain hc | hc := List.mem_append.mp hc
    · exact h c hc
    · cases List.mem_singleton.mp hc
      dsimp only
      rw [(s.getModel memory).built, getModel_examples hown]

/-! ### One memory -/

/-- Calls that pass the memory `i`. -/
def Passes (i : ι) : ClassifierInput ι → Prop
  | .classifyNlp _ memory => memory = some i
  | _ => True

/-- The model is that of the memory. -/
def ModelOf (i : ι) (s : Classifier ι ops) : Prop :=
  ∀ built, s.model = some built →
    built.examples = ClassifierMemory.positives (s.learned (some i))

/-- Unless the model is reset, the examples are those there were. -/
theorem learn_reset (m : ClassifierMemory) (description : String) (mode : DelegationMode)
    (outcomeClass : String) (weight : Option JsNumber) (now : String)
    (h : (m.learn description mode outcomeClass weight now).2 = false) :
    (m.learn description mode outcomeClass weight now).1.learned = m.learned := by
  rw [ClassifierMemory.learn] at h ⊢
  dsimp only at h ⊢
  split at h
  · next hw => rw [if_pos hw]
  · next hw =>
    rw [if_neg hw]
    split at h
    · next ht => rw [if_pos ht]
    · cases h

theorem load_reset (m : ClassifierMemory) (result : Option (List Observation))
    (h : (m.load result).2 = false) : (m.load result).1.learned = m.learned := by
  cases result with
  | none => rfl
  | some observations =>
    have hnil : observations.filterMap ClassifierMemory.ofObservation = [] := by
      rw [ClassifierMemory.load, decide_eq_false_iff_not, Nat.not_lt, Nat.le_zero] at h
      exact List.eq_nil_of_length_eq_zero h
    rw [ClassifierMemory.load, hnil, List.append_nil]

theorem ModelOf.change {i j : ι} {s : Classifier ι ops} (h : ModelOf i s)
    {m : ClassifierMemory × Bool} (hm : m.2 = false → m.1.learned = (s.memory j).learned) :
    ModelOf i (s.change j m) := by
  intro built hbuilt
  rw [Classifier.change] at hbuilt
  dsimp only at hbuilt
  split at hbuilt
  · cases hbuilt
  · next hreset =>
    have hsame : (Function.update s.memory j m.1 i).learned = (s.memory i).learned := by
      by_cases hij : i = j
      · subst hij
        rw [Function.update_self]
        exact hm (Bool.eq_false_iff.mpr hreset)
      · rw [Function.update_of_ne hij]
    rw [h built hbuilt]
    exact congrArg ClassifierMemory.positives hsame.symm

theorem ModelOf.step {i : ι} {s : Classifier ι ops} (h : ModelOf i s) (input : ClassifierInput ι)
    (hpasses : Passes i input) : ModelOf i (s.step input) := by
  cases input with
  | learn j description mode outcomeClass weight now => exact h.change (learn_reset _ _ _ _ _ _)
  | reset j => exact h.change nofun
  | loadFromStore j =>
    rw [Classifier.step]
    split <;> exact h
  | queried j result =>
    rw [Classifier.step]
    split
    · exact h
    · exact ModelOf.change (s := { s with loading := _ }) h (load_reset _ _)
  | classifyNlp description memory =>
    obtain rfl : memory = some i := hpasses
    intro built hbuilt
    cases hbuilt
    exact getModel_examples h

/-- As long as all calls pass one memory, the model is its own. -/
theorem ownModel_of_passes {i : ι} {s : Classifier ι ops} (h : ModelOf i s)
    {inputs : List (ClassifierInput ι)} (hinputs : ∀ input ∈ inputs, Passes i input) :
    Run.AllSteps Classifier.step OwnModel s inputs := by
  induction inputs generalizing s with
  | nil => trivial
  | cons input inputs ih =>
    have hpasses := hinputs input List.mem_cons_self
    refine ⟨?_, ih (h.step input hpasses) fun input' h' => hinputs input' (.tail _ h')⟩
    cases input with
    | classifyNlp description memory =>
      obtain rfl : memory = some i := hpasses
      exact h
    | _ => trivial

/-! ### Every run -/

theorem classifications_isolated {inputs : List (ClassifierInput ι)}
    (h : Run.AllSteps step OwnModel ({} : Classifier ι ops) inputs) :
    Run.AllStates step Isolated ({} : Classifier ι ops) inputs :=
  Run.allStates_of_invariant (fun _ input hs hown => Isolated.step hs input hown) nofun h

end Classifier

end Nlp

end KirkForge
