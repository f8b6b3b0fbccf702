import KirkForge.Orchestrator.ClassifierMemory
import Mathlib.Analysis.SpecialFunctions.Log.Basic
import Mathlib.Analysis.Real.Sqrt

/-!
# A classification by the examples of another memory

The scores in exact arithmetic. A description that shares a word with an example of a mode has a
positive score for that mode (`score_pos`); without an example a mode has the score 0. So the answer
to a memory without examples shows whose model gave it.
-/

namespace KirkForge.Nlp

open Classical in
/-- Exact arithmetic. -/
noncomputable def realOps : FloatOps ℝ where
  ofRat q := q
  add x y := x + y
  sub x y := x - y
  mul x y := x * y
  div x y := x / y
  log := Real.log
  sqrt := Real.sqrt
  max x y := x ⊔ y
  min x y := x ⊓ y
  gt x y := decide (y < x)
  isZero x := decide (x = 0)

/-! ### Counting -/

theorem get?_foldl_increment (tokens : List String) (map : OrderedMap String Nat) (t : String) :
    (tokens.foldl increment map).get? t =
      if t ∈ tokens then some ((map.get? t).getD 0 + tokens.count t) else map.get? t := by
  induction tokens generalizing map with
  | nil => simp
  | cons a tokens ih =>
    rw [List.foldl_cons, ih, increment, OrderedMap.get?_set]
    by_cases ha : a = t
    · subst ha
      by_cases hmem : a ∈ tokens
      · simp [hmem]
        omega
      · simp [hmem, List.count_eq_zero_of_not_mem hmem]
    · simp [ha, Ne.symm ha]

theorem count_eraseDups (tokens : List String) (t : String) :
    tokens.eraseDups.count t = if t ∈ tokens then 1 else 0 := by
  match tokens with
  | [] => rfl
  | a :: tokens =>
    have hlength : (tokens.filter fun b => !b == a).length < tokens.length + 1 :=
      Nat.lt_succ_of_le (List.length_filter_le ..)
    rw [List.eraseDups_cons, List.count_cons, count_eraseDups (tokens.filter _) t]
    by_cases ha : a = t
    · simp [ha]
    · simp [ha, Ne.symm ha]
termination_by tokens.length

/-- A token is counted in as many documents as it is in. -/
theorem get?_documentFrequency (docs : List (List String)) (t : String) :
    (documentFrequency docs).get? t =
      if ∃ doc ∈ docs, t ∈ doc then some (docs.countP (t ∈ ·)) else none := by
  suffices h : ∀ df : OrderedMap String Nat,
      (docs.foldl (fun df doc => doc.eraseDups.foldl increment df) df).get? t =
        if ∃ doc ∈ docs, t ∈ doc then some ((df.get? t).getD 0 + docs.countP (t ∈ ·))
        else df.get? t by
    simpa [documentFrequency] using h ∅
  intro df
  induction docs generalizing df with
  | nil => simp
  | cons doc docs ih =>
    rw [List.foldl_cons, ih, get?_foldl_increment]
    simp only [List.mem_eraseDups, count_eraseDups]
    by_cases hdoc : t ∈ doc
    · by_cases hdocs : ∃ doc ∈ docs, t ∈ doc
      · simp [hdoc, hdocs]
        omega
      · have hzero : docs.countP (t ∈ ·) = 0 := by
          rw [List.countP_eq_zero]
          intro doc' hdoc' hmem
          exact hdocs ⟨doc', hdoc', by simpa using hmem⟩
        simp [hdoc, hdocs, hzero]
    · simp [hdoc]

/-! ### Weights -/

theorem computeTf_of_not_mem {doc : List String} {t : String} (ht : t ∉ doc) :
    computeTf realOps doc t = none := by
  rw [computeTf, get?_foldl_increment, if_neg ht]
  rfl

theorem computeTf_of_mem {doc : List String} {t : String} (ht : t ∈ doc) :
    ∃ x > 0, computeTf realOps doc t = some x := by
  have hlength : doc.length ≠ 0 := (List.length_pos_of_mem ht).ne'
  have hcount : 0 < doc.count t := List.count_pos_iff.mpr ht
  refine ⟨(doc.count t : ℝ) / doc.length, by positivity, ?_⟩
  rw [computeTf, get?_foldl_increment, if_pos ht, if_neg hlength]
  simp [realOps]

/-- The weight that `buildVocabulary` gives a token of the documents is at least 1. -/
theorem buildVocabulary_idf {docs : List (List String)} {t : String}
    (ht : ∃ doc ∈ docs, t ∈ doc) : ∃ x > 0, (buildVocabulary realOps docs).2 t = some x := by
  have hle : docs.countP (t ∈ ·) ≤ docs.length := List.countP_le_length
  have hratio : (1 : ℝ) ≤ (docs.length + 1) / (docs.countP (t ∈ ·) + 1) := by
    rw [one_le_div (by positivity)]
    exact_mod_cast Nat.succ_le_succ hle
  refine ⟨Real.log ((docs.length + 1) / (docs.countP (t ∈ ·) + 1)) + 1, ?_, ?_⟩
  · have := Real.log_nonneg hratio
    positivity
  · simp only [buildVocabulary, get?_documentFrequency, if_pos ht]
    simp [realOps]

theorem mem_vocabulary {docs : List (List String)} {t : String} :
    t ∈ (buildVocabulary realOps docs).1 ↔ ∃ doc ∈ docs, t ∈ doc := by
  rw [buildVocabulary, List.mem_mergeSort, ← OrderedMap.has_iff_mem_keys, OrderedMap.has,
    get?_documentFrequency]
  split
  · next h => exact iff_of_true rfl h
  · next h => exact iff_of_false (by rintro ⟨⟩) h

/-- The weight of a token in a document. -/
noncomputable def weight (idf : String → Option ℝ) (doc : List String) (t : String) : ℝ :=
  (computeTf realOps doc t).getD 0 * (idf t).getD 0

theorem vectorize_eq (doc vocabulary : List String) (idf : String → Option ℝ) :
    vectorize realOps doc vocabulary idf = vocabulary.map (weight idf doc) := by
  simp [vectorize, weight, realOps]

theorem weight_of_not_mem {idf : String → Option ℝ} {doc : List String} {t : String}
    (ht : t ∉ doc) : weight idf doc t = 0 := by
  rw [weight, computeTf_of_not_mem ht, Option.getD_none, zero_mul]

theorem weight_pos {docs : List (List String)} {doc : List String} {t : String}
    (ht : t ∈ doc) (hvocabulary : ∃ doc ∈ docs, t ∈ doc) :
    0 < weight (buildVocabulary realOps docs).2 doc t := by
  obtain ⟨x, hx, htf⟩ := computeTf_of_mem ht
  obtain ⟨y, hy, hidf⟩ := buildVocabulary_idf hvocabulary
  rw [weight, htf, hidf]
  exact mul_pos hx hy

/-- The weights of the tokens of the vocabulary are not negative. -/
theorem weight_nonneg {docs : List (List String)} (doc : List String) {t : String}
    (hvocabulary : ∃ doc ∈ docs, t ∈ doc) : 0 ≤ weight (buildVocabulary realOps docs).2 doc t := by
  by_cases ht : t ∈ doc
  · exact (weight_pos ht hvocabulary).le
  · rw [weight_of_not_mem ht]

/-! ### Vectors over the vocabulary -/

variable {vocabulary : List String}

theorem dotProduct_map (f g : String → ℝ) :
    dotProduct realOps (vocabulary.map f) (vocabulary.map g) =
      (vocabulary.map fun t => f t * g t).sum := by
  have hfold (l : List (ℝ × ℝ)) (x : ℝ) :
      l.foldl (fun sum p => sum + p.1 * p.2) x = x + (l.map fun p => p.1 * p.2).sum := by
    induction l generalizing x with
    | nil => simp
    | cons p l ih => simp [ih, add_assoc]
  have hzip : (vocabulary.map f).zip (vocabulary.map g) = vocabulary.map fun t => (f t, g t) := by
    rw [List.zip_map']
  simp only [dotProduct, realOps, hzip, hfold, List.map_map, Rat.cast_zero, zero_add]
  rfl

theorem centroid_map (idf : String → Option ℝ) (docs : List (List String)) :
    centroid realOps vocabulary idf docs =
      vocabulary.map fun t => (docs.map fun doc => weight idf doc t).sum / docs.length := by
  have hfold (g : String → ℝ) :
      (docs.map fun d => vectorize realOps d vocabulary idf).foldl
          (fun sum v => List.zipWith realOps.add sum v) (vocabulary.map g) =
        vocabulary.map fun t => g t + (docs.map fun doc => weight idf doc t).sum := by
    induction docs generalizing g with
    | nil => simp
    | cons doc docs ih =>
      have hzip : List.zipWith realOps.add (vocabulary.map g) (vocabulary.map (weight idf doc)) =
          vocabulary.map fun t => g t + weight idf doc t := by
        rw [List.zipWith_map, List.zipWith_self]
        rfl
      rw [List.map_cons, List.foldl_cons, vectorize_eq, hzip, ih]
      simp [add_assoc]
  rw [centroid]
  simp only [hfold, List.map_map, List.length_map]
  simp [realOps]

theorem sum_map_pos {l : List String} {f : String → ℝ} (hnonneg : ∀ t ∈ l, 0 ≤ f t) {t : String}
    (ht : t ∈ l) (hpos : 0 < f t) : 0 < (l.map f).sum := by
  have hle : f t ≤ (l.map f).sum := by
    refine List.single_le_sum (fun x hx => ?_) _ (List.mem_map_of_mem ht)
    obtain ⟨u, hu, rfl⟩ := List.mem_map.mp hx
    exact hnonneg u hu
  exact hpos.trans_le hle

/-! ### Scores -/

theorem cosineSimilarity_pos {f g : String → ℝ} (hf : ∀ t ∈ vocabulary, 0 ≤ f t)
    (hg : ∀ t ∈ vocabulary, 0 ≤ g t) {t : String} (ht : t ∈ vocabulary) (hft : 0 < f t)
    (hgt : 0 < g t) : 0 < cosineSimilarity realOps (vocabulary.map f) (vocabulary.map g) := by
  have hdot {f g : String → ℝ} (hf : ∀ t ∈ vocabulary, 0 ≤ f t) (hg : ∀ t ∈ vocabulary, 0 ≤ g t)
      (hft : 0 < f t) (hgt : 0 < g t) :
      0 < dotProduct realOps (vocabulary.map f) (vocabulary.map g) := by
    rw [dotProduct_map]
    exact sum_map_pos (fun u hu => mul_nonneg (hf u hu) (hg u hu)) ht (mul_pos hft hgt)
  have hff := Real.sqrt_pos.mpr (hdot hf hf hft hft)
  have hgg := Real.sqrt_pos.mpr (hdot hg hg hgt hgt)
  rw [cosineSimilarity, if_neg (by simpa [realOps] using ⟨hff.ne', hgg.ne'⟩)]
  exact div_pos (hdot hf hg hft hgt) (mul_pos hff hgg)

theorem find?_map_key {β γ : Type*} (l : List (DelegationMode × β)) (f : β → γ)
    (mode : DelegationMode) :
    (l.map fun e => (e.1, f e.2)).find? (fun e => decide (e.1 = mode)) =
      (OrderedMap.lookup mode l).map fun b => (mode, f b) := by
  induction l with
  | nil => rfl
  | cons e l ih =>
    rw [List.map_cons, List.find?_cons, OrderedMap.lookup]
    by_cases he : e.1 = mode
    · simp [he]
    · simp [he, ih]

theorem scores_eq (learned : List PositiveExample) (description : String) (mode : DelegationMode) :
    let vocabulary := (buildVocabulary realOps (allDocs learned)).1
    let idf := (buildVocabulary realOps (allDocs learned)).2
    (classify realOps (buildModel realOps learned) description).scores mode =
      match (modeDocs learned).get? mode with
      | some docs => cosineSimilarity realOps
          (vocabulary.map (weight idf (tokenize description)))
          (vocabulary.map fun t => (docs.map fun doc => weight idf doc t).sum / docs.length)
      | none => 0 := by
  intro vocabulary idf
  have hfind := find?_map_key (modeDocs learned).entries (centroid realOps vocabulary idf) mode
  rw [← OrderedMap.get?] at hfind
  rw [classify]
  dsimp only [buildModel]
  rw [hfind, vectorize_eq]
  cases (modeDocs learned).get? mode with
  | none => simp [realOps]
  | some docs => exact congrArg (cosineSimilarity realOps _) (centroid_map idf docs)

/-- A word that is in an example of the mode makes for a positive score. -/
theorem score_pos {learned : List PositiveExample} {description t : String}
    {mode : DelegationMode} {docs : List (List String)} {d : List String}
    (hmode : (modeDocs learned).get? mode = some docs) (hdoc : d ∈ docs)
    (hall : d ∈ allDocs learned) (ht : t ∈ d) (hdescription : t ∈ tokenize description) :
    0 < (classify realOps (buildModel realOps learned) description).scores mode := by
  have hvocabulary := mem_vocabulary.mpr ⟨d, hall, ht⟩
  have hnonneg (doc : List String) : ∀ u ∈ (buildVocabulary realOps (allDocs learned)).1,
      0 ≤ weight (buildVocabulary realOps (allDocs learned)).2 doc u :=
    fun u hu => weight_nonneg doc (mem_vocabulary.mp hu)
  have hpos {doc' : List String} (ht' : t ∈ doc') :
      0 < weight (buildVocabulary realOps (allDocs learned)).2 doc' t :=
    weight_pos ht' ⟨d, hall, ht⟩
  have hlength : (0 : ℝ) < docs.length := by exact_mod_cast List.length_pos_of_mem hdoc
  rw [scores_eq, hmode]
  refine cosineSimilarity_pos (hnonneg _) (fun u hu => ?_) hvocabulary (hpos hdescription) ?_
  · refine div_nonneg (List.sum_nonneg fun x hx => ?_) hlength.le
    obtain ⟨doc, -, rfl⟩ := List.mem_map.mp hx
    exact hnonneg doc u hu
  · refine div_pos ((hpos ht).trans_le ?_) hlength
    refine List.single_le_sum (fun x hx => ?_) _ (List.mem_map_of_mem hdoc)
    obtain ⟨doc, -, rfl⟩ := List.mem_map.mp hx
    exact hnonneg doc t hvocabulary

/-! ### Two memories -/

theorem words_release : words "plan release" = ["plan", "release"] := by
  decide

theorem tokenize_release : tokenize "plan release" = ["plan", "release"] := by
  decide

/-- A memory that has learned of one task that was decomposed. -/
def releaseMemory : ClassifierMemory where
  learned :=
    [{ tokens := ["plan", "release"], mode := .taskDecompose, weight := 1, timestamp := "" }]

theorem learn_release : ClassifierMemory.learn {} "plan release" .taskDecompose "pass" none "" =
    (releaseMemory, true) := by
  rw [ClassifierMemory.learn, words_release]
  rfl

/-- One memory learns, and is asked twice. -/
theorem classifications_isolated_of_one_memory :
    Run.AllStates Classifier.step Classifier.Isolated ({} : Classifier Bool realOps)
      [.learn false "plan release" .taskDecompose "pass" none "",
        .classifyNlp "plan release" (some false), .classifyNlp "write a plan" (some false)] := by
  have hinit : Classifier.ModelOf false ({} : Classifier Bool realOps) := fun _ h => by cases h
  refine Classifier.classifications_isolated (Classifier.ownModel_of_passes hinit ?_)
  intro input hinput
  simp only [List.mem_cons, List.not_mem_nil, or_false] at hinput
  obtain rfl | rfl | rfl := hinput
  · trivial
  · rfl
  · rfl

/-- A second memory, which has learned nothing, is asked after the first: the answer is that of the
first. -/
theorem classification_by_other_memory :
    ¬Run.AllStates Classifier.step Classifier.Isolated ({} : Classifier Bool realOps)
      [.learn false "plan release" .taskDecompose "pass" none "",
        .classifyNlp "plan release" (some false), .classifyNlp "plan release" (some true)] := by
  intro h
  have hlearned : Classifier.step ({} : Classifier Bool realOps)
      (.learn false "plan release" .taskDecompose "pass" none "") =
        { memory := Function.update (fun _ => {}) false releaseMemory } :=
    congrArg (Classifier.change {} false) learn_release
  have hresult := h.2.2.2 _ (List.mem_append_right _ (List.mem_singleton_self _))
  rw [hlearned] at hresult
  have hscore : (classify realOps (buildModel realOps [(.taskDecompose, ["plan", "release"])])
      "plan release").scores .taskDecompose =
        (classify realOps (buildModel realOps []) "plan release").scores .taskDecompose :=
    congrArg (fun result => result.scores .taskDecompose) hresult
  have hclean : (classify realOps (buildModel realOps []) "plan release").scores .taskDecompose =
      0 := scores_eq [] "plan release" .taskDecompose
  have hpositive : 0 < (classify realOps
      (buildModel realOps [(.taskDecompose, ["plan", "release"])]) "plan release").scores
        .taskDecompose := by
    refine score_pos (t := "plan") (d := ["plan", "release"]) (OrderedMap.get?_set_self ..)
      ?_ ?_ ?_ ?_
    · exact List.mem_append_right _ (List.mem_singleton_self _)
    · exact List.mem_append_right _ (List.mem_singleton_self _)
    · exact List.mem_cons_self
    · rw [tokenize_release]
      exact List.mem_cons_self
  rw [hscore, hclean] at hpositive
  exact lt_irrefl 0 hpositive

end KirkForge.Nlp
