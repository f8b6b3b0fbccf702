import KirkForge.Orchestrator.ClassifierIsolation
import KirkForge.Theory.Lists

/-!
# How much a classifier learns

A memory is to hold the last 1000 examples that were added to it. `learn` cuts off what is too
much and `loadFromStore` does not, so this is true for as long as what is loaded fits into the room
that is left (`holdsMostRecent_iff`).
-/

namespace KirkForge

namespace ClassifierMemory

/-- What `learn` learns. -/
def ofOutcome (description : String) (mode : DelegationMode) (outcomeClass : String)
    (weight : Option JsNumber) (now : String) : Option LearnedExample :=
  let w := weight.getD ((outcomeWeight outcomeClass).getD 0)
  let tokens := Nlp.words description
  if w = 0 ∨ tokens.length < 2 then none
  else some { tokens, mode, weight := w, timestamp := now }

variable {m : ClassifierMemory}

/-- `learn` keeps the last 1000 examples. -/
theorem learn_learned (h : m.learned.length ≤ 1000) (description : String) (mode : DelegationMode)
    (outcomeClass : String) (weight : Option JsNumber) (now : String) :
    (m.learn description mode outcomeClass weight now).1.learned =
      (m.learned ++ (ofOutcome description mode outcomeClass weight now).toList).rtake 1000 := by
  rw [learn, ofOutcome]
  dsimp only
  split
  · next hw =>
    rw [if_pos (.inl hw), Option.toList_none, List.append_nil, Lists.rtake_of_length_le h]
  · next hw =>
    split
    · next htokens =>
      rw [if_pos (.inr htokens), Option.toList_none, List.append_nil, Lists.rtake_of_length_le h]
    · next htokens =>
      rw [if_neg (not_or.mpr ⟨hw, htokens⟩), Option.toList_some]
      dsimp only
      split
      · rfl
      · next hlength => rw [Lists.rtake_of_length_le (Nat.not_lt.mp hlength)]

/-- What a load adds. -/
def loaded (result : Option (List Observation)) : List LearnedExample :=
  (result.getD []).filterMap ofObservation

theorem load_learned (result : Option (List Observation)) :
    (m.load result).1.learned = m.learned ++ loaded result := by
  cases result with
  | none => exact (List.append_nil _).symm
  | some observations => rfl

end ClassifierMemory

namespace Nlp

open ClassifierMemory

/-- A classifier, with all that its memories have learned since they were last reset. -/
structure LearningRun (ι : Type) {α : Type} (ops : FloatOps α) where
  classifier : Classifier ι ops := {}
  added : ι → List LearnedExample := fun _ => []

namespace LearningRun

variable {ι α : Type} [DecidableEq ι] {ops : FloatOps α}

def addedBy (r : LearningRun ι ops) : ClassifierInput ι → ι → List LearnedExample
  | .learn i description mode outcomeClass weight now =>
    Function.update r.added i
      (r.added i ++ (ofOutcome description mode outcomeClass weight now).toList)
  | .queried i result =>
    if r.classifier.loading i = 0 then r.added
    else Function.update r.added i (r.added i ++ loaded result)
  | .reset i => Function.update r.added i []
  | .loadFromStore _ | .classifyNlp _ _ => r.added

def step (r : LearningRun ι ops) (input : ClassifierInput ι) : LearningRun ι ops where
  classifier := r.classifier.step input
  added := r.addedBy input

/-- Every memory holds the examples that were added last, and 1000 at most. -/
def HoldsMostRecent (r : LearningRun ι ops) : Prop :=
  ∀ i, (r.classifier.memory i).learned = (r.added i).rtake 1000

/-- What is loaded fits into the room that is left. -/
def Fits (r : LearningRun ι ops) : ClassifierInput ι → Prop
  | .queried i result => r.classifier.loading i = 0 ∨
      (r.classifier.memory i).learned.length + (loaded result).length ≤ 1000
  | _ => True

omit [DecidableEq ι] in
theorem HoldsMostRecent.length_le {r : LearningRun ι ops} (h : r.HoldsMostRecent) (i : ι) :
    (r.classifier.memory i).learned.length ≤ 1000 := by
  rw [h i]
  exact Lists.length_rtake_le _ _

/-- A memory is changed, and so is the record of what was added to it. -/
theorem HoldsMostRecent.change {r r' : LearningRun ι ops} {i : ι} {m : ClassifierMemory}
    {examples : List LearnedExample} (h : r.HoldsMostRecent)
    (hm : m.learned = examples.rtake 1000)
    (hmemory : r'.classifier.memory = Function.update r.classifier.memory i m)
    (hadded : r'.added = Function.update r.added i examples) : r'.HoldsMostRecent := by
  intro j
  rw [hmemory, hadded]
  by_cases hj : j = i
  · subst hj
    rw [Function.update_self, Function.update_self, hm]
  · rw [Function.update_of_ne hj, Function.update_of_ne hj, h j]

theorem memory_loadFromStore (r : LearningRun ι ops) (i : ι) :
    (r.step (.loadFromStore i)).classifier.memory = r.classifier.memory := by
  rw [LearningRun.step, Classifier.step]
  split <;> rfl

theorem HoldsMostRecent.step {r : LearningRun ι ops} (h : r.HoldsMostRecent)
    (input : ClassifierInput ι) (hfits : Fits r input) : (r.step input).HoldsMostRecent := by
  cases input with
  | learn i description mode outcomeClass weight now =>
    refine h.change ?_ rfl rfl
    rw [learn_learned (h.length_le i), h i, Lists.rtake_append]
  | loadFromStore i =>
    intro j
    rw [memory_loadFromStore]
    exact h j
  | queried i result =>
    by_cases hloading : r.classifier.loading i = 0
    · intro j
      have hsame : r.step (.queried i result) = r := by
        rw [LearningRun.step, Classifier.step, addedBy, if_pos hloading, if_pos hloading]
      rw [hsame]
      exact h j
    · have hlength := hfits.resolve_left hloading
      have hlearned : ((r.classifier.memory i).load result).1.learned =
          (r.added i ++ loaded result).rtake 1000 := by
        rw [load_learned, ← Lists.rtake_append, ← h i, Lists.rtake_of_length_le]
        rwa [List.length_append]
      refine h.change (i := i) hlearned ?_ ?_
      · rw [LearningRun.step, Classifier.step, if_neg hloading]
        rfl
      · rw [LearningRun.step, addedBy, if_neg hloading]
  | reset i => exact h.change (List.rtake_nil _).symm rfl rfl
  | classifyNlp description memory => exact h

/-- What does not fit makes a memory too long. -/
theorem fits_of_holdsMostRecent {r : LearningRun ι ops} (input : ClassifierInput ι)
    (h : (r.step input).HoldsMostRecent) : Fits r input := by
  cases input with
  | queried i result =>
    refine or_iff_not_imp_left.mpr fun hloading => ?_
    have hmemory : (r.step (.queried i result)).classifier.memory =
        Function.update r.classifier.memory i ((r.classifier.memory i).load result).1 := by
      rw [LearningRun.step, Classifier.step, if_neg hloading]
      rfl
    have hlength := h.length_le i
    rwa [hmemory, Function.update_self, load_learned, List.length_append] at hlength
  | _ => trivial

/-- In a run from the start the memories hold what they should throughout, exactly if all that is
loaded fits. -/
theorem holdsMostRecent_iff (inputs : List (ClassifierInput ι)) :
    Run.AllStates step HoldsMostRecent ({} : LearningRun ι ops) inputs ↔
      Run.AllSteps step Fits ({} : LearningRun ι ops) inputs := by
  have hstep : ∀ (r : LearningRun ι ops) input, r.HoldsMostRecent → Fits r input →
      (r.step input).HoldsMostRecent := fun r input h hfits => h.step input hfits
  have hinit : ({} : LearningRun ι ops).HoldsMostRecent :=
    fun i => (List.rtake_nil _).symm
  constructor
  · intro h
    exact Run.allSteps_of_allStates hstep (fun r input _ => fits_of_holdsMostRecent input) hinit h
  · intro h
    exact Run.allStates_of_invariant hstep hinit h

/-! ### A load into a full memory -/

/-- What is learned of a release that was planned. -/
def release (now : String) : LearnedExample :=
  { tokens := ["plan", "release"], mode := .taskDecompose, weight := 1, timestamp := now }

def learnRelease : ClassifierInput Unit :=
  .learn () "plan release" .taskDecompose "pass" none "2026-01-02T00:00:00.000Z"

theorem learn_release {m : ClassifierMemory} (h : m.learned.length < 1000) (now : String) :
    (m.learn "plan release" .taskDecompose "pass" none now).1 =
      { m with learned := m.learned ++ [release now] } := by
  have hw : ¬(none.getD ((outcomeWeight "pass").getD 0) : JsNumber) = 0 := by decide
  have htokens : ¬["plan", "release"].length < 2 := by decide
  have hlength : ¬(m.learned ++ [release now]).length > 1000 := by
    rw [List.length_append, List.length_singleton]
    omega
  rw [learn, words_release]
  dsimp only
  rw [if_neg hw, if_neg htokens]
  exact congrArg (fun learned => { m with learned }) (if_neg hlength)

/-- Up to the bound, each call adds an example. -/
theorem memory_learnRelease {n : Nat} {r : LearningRun Unit ops} {learned : List LearnedExample}
    (hmemory : r.classifier.memory () = { learned }) (hlength : learned.length + n ≤ 1000) :
    (Run.run step r (List.replicate n learnRelease)).classifier.memory () =
      { learned := learned ++ List.replicate n (release "2026-01-02T00:00:00.000Z") } := by
  induction n generalizing r learned with
  | zero => exact hmemory.trans (by rw [List.replicate_zero, List.append_nil])
  | succ n ih =>
    have hstep : (r.step learnRelease).classifier.memory () =
        { learned := learned ++ [release "2026-01-02T00:00:00.000Z"] } := by
      have hlearn : (r.step learnRelease).classifier.memory () =
          ((r.classifier.memory ()).learn "plan release" .taskDecompose "pass" none
            "2026-01-02T00:00:00.000Z").1 :=
        Function.update_self () _ r.classifier.memory
      rw [hlearn, hmemory, learn_release]
      dsimp only
      omega
    have hroom : (learned ++ [release "2026-01-02T00:00:00.000Z"]).length + n ≤ 1000 := by
      rw [List.length_append, List.length_singleton]
      omega
    rw [List.replicate_succ, Run.run_cons, ih hstep hroom, List.replicate_succ,
      List.append_assoc, List.singleton_append]

/-- What a first load finds has to fit. -/
theorem length_of_load {r : LearningRun Unit ops} {learned : List LearnedExample}
    {result : Option (List Observation)} (hmemory : r.classifier.memory () = { learned })
    (h : ((r.step (.loadFromStore ())).step (.queried () result)).HoldsMostRecent) :
    learned.length + (loaded result).length ≤ 1000 := by
  have hloading : (r.step (.loadFromStore ())).classifier.loading () ≠ 0 := by
    simp [step, Classifier.step, hmemory]
  have hfits := (fits_of_holdsMostRecent _ h).resolve_left hloading
  rwa [memory_loadFromStore, hmemory] at hfits

/-- A thousand outcomes are learned, and then one is loaded from the store. -/
theorem load_over_bound :
    ¬Run.AllStates step HoldsMostRecent ({} : LearningRun Unit realOps)
      (List.replicate 1000 learnRelease ++ [.loadFromStore (), .queried () (some
        [⟨"plan release", .taskDecompose, "pass", "2026-01-01T00:00:00.000Z"⟩])]) := by
  intro h
  have hlast := h.last
  rw [Run.run, List.foldl_append] at hlast
  have hmemory := @memory_learnRelease _ realOps 1000 {} [] rfl (by decide)
  have hlength := length_of_load hmemory hlast
  have hloaded : (loaded (some [⟨"plan release", .taskDecompose, "pass",
      "2026-01-01T00:00:00.000Z"⟩])).length = 1 := by decide
  rw [hloaded, List.nil_append, List.length_replicate] at hlength
  exact absurd hlength (by decide)

end LearningRun

end Nlp

end KirkForge
