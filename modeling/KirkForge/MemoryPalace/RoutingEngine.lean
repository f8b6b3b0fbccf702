import KirkForge.MemoryPalace.Decompositions
import KirkForge.Theory.Lists
import KirkForge.Theory.OrderedMap
import Mathlib.Data.Finset.Card
import Mathlib.Data.List.Sort

/-!
# Recommendations from past observations

`buildEmpiricalRecommendation` (`memory-palace/src/routing-engine.ts`). Of the observations that are
similar to a task the twelve most similar ones count, with their similarity as a weight; models and
modes are ranked by their pass rates. The best model is the first of the ranking even where the
engine advises against it, so a recommendation contradicts itself exactly where no model does better
and some other model is not on the list (`coherent_iff`).
-/

namespace KirkForge.RoutingEngine

/-- The parts of the language that the engine rests on. -/
structure Env where
  /-- `Math.sqrt(x)` -/
  sqrt : ℚ → ℚ
  /-- `String(v)` for a value that is no string. -/
  display : JsValue → String
  /-- `Number(v)` for a value that is no finite number. -/
  number : JsValue → ℚ

inductive Outcome
  | pass | fail | error
  deriving DecidableEq, Repr

def Outcome.name : Outcome → String
  | pass => "pass"
  | fail => "fail"
  | error => "error"

def normalizeOutcome (value : JsValue) : Outcome :=
  if value.isString "pass" then .pass else if value.isString "fail" then .fail else .error

def detectFamily (description : String) : String :=
  let lower := Text.toLowerCase description
  let has (words : List String) : Bool := words.any (Text.includes lower)
  if has ["web", "http", "server", "endpoint", "api"] then "web"
  else if has ["script", "cli", "command", "shell"] then "script"
  else if has ["test", "spec", "verify", "check"] then "testing"
  else if has ["data", "parse", "scrape", "csv", "json"] then "data"
  else if has ["fix", "debug", "repair", "patch"] then "debugging"
  else "general"

/-! ### Vectors -/

def imul (a b : BitVec 32) : BitVec 32 := a * b

/-- The dimension that a token counts for. The first `^=` makes a signed number of the hash. -/
def dimension (dimensions : Nat) (token : String) : Nat :=
  match Text.utf16 token with
  | [] => 2166136261 % dimensions
  | codes =>
    let hash := codes.foldl (fun hash code => imul (hash ^^^ BitVec.ofNat 32 code) 16777619)
      2166136261
    hash.toInt.natAbs % dimensions

def vectorize (tokens : List String) (dimensions : Nat) : List ℚ :=
  (List.range dimensions).map fun i =>
    ((tokens.filter fun token => dimension dimensions token = i).length : ℚ)

example : dimension 64 "rest" = 41 := by decide

variable (env : Env)

def cosine (a b : List ℚ) : ℚ :=
  let terms := (List.range (max a.length b.length)).map fun i => (a.getD i 0, b.getD i 0)
  let dot := (terms.map fun t => t.1 * t.2).sum
  let an := (terms.map fun t => t.1 * t.1).sum
  let bn := (terms.map fun t => t.2 * t.2).sum
  if an = 0 ∨ bn = 0 then 0 else dot / (env.sqrt an * env.sqrt bn)

/-! ### What is read of an observation -/

/-- `String(v ?? missing)` -/
def text (v : JsValue) (missing : String) : String :=
  match v with
  | .undefined | .null => missing
  | .string s => s
  | v => env.display v

/-- `Number(v ?? 0)` -/
def count (v : JsValue) : ℚ :=
  match v with
  | .undefined | .null => 0
  | .number (.finite q) => q
  | v => env.number v

/-- The elements of a stored vector, `v ?? 0` each. -/
def components : JsElements → List ℚ
  | .nil => []
  | .hole rest => 0 :: components rest
  | .cons v rest => count env v :: components rest

def vectorOf (o : MemoryObject) : List ℚ :=
  match o.properties.get "vector" with
  | .array elements => components env elements
  | _ => vectorize (text env (o.properties.get "language") "" ::
      text env (o.properties.get "taskFamily") "" :: tokenize o.description) 64

def modelOf (o : MemoryObject) : String := text env (o.properties.get "model") "unknown"

def modeOf (o : MemoryObject) : String := text env (o.properties.get "mode") "hard-prompt"

def outcomeOf (o : MemoryObject) : Outcome := normalizeOutcome (o.properties.get "outcome")

def sourceOf (o : MemoryObject) : String := text env (o.properties.get "sourceOfTruth") "verifier"

/-- The lesson that stands for an outcome. -/
def derivedLesson : Outcome → String
  | .pass => "reward"
  | .fail => "punish"
  | .error => "neutral"

def routingLessonOf (o : MemoryObject) : String :=
  let raw := text env (o.properties.get "routingLesson") ""
  if raw ≠ "" then raw else derivedLesson (outcomeOf o)

def outcomeClassOf (o : MemoryObject) : String :=
  text env (o.properties.get "outcomeClass") "unknown"

def truthFactor (o : MemoryObject) : ℚ := if sourceOf env o = "task-validator" then 2 else 1

/-- Whether an observation counts for or against its model, if it counts. -/
def scored (o : MemoryObject) : Option Bool :=
  if routingLessonOf env o = "reward" then some true
  else if routingLessonOf env o = "punish" then some false
  else if routingLessonOf env o = "neutral" then none
  else match outcomeOf o with
    | .pass => some true
    | .fail => some false
    | .error => none

/-- An observation with its similarity to the task. -/
structure Similar where
  object : MemoryObject
  similarity : ℚ

def Similar.weight (e : Similar) : ℚ := e.similarity * truthFactor env e.object

def similar (taskDescription : String) (observations : List MemoryObject) : List Similar :=
  let query := vectorize (tokenize taskDescription) 64
  let entries := observations.map fun object =>
    let sameFamily : ℚ :=
      if (object.properties.get "taskFamily").isString (detectFamily taskDescription) then 1 / 4
      else 0
    { object, similarity := min 1 (cosine env query (vectorOf env object) + sameFamily) : Similar }
  ((entries.filter fun e => e.similarity ≥ 1 / 4).mergeSort fun a b =>
    b.similarity ≤ a.similarity).take 12

/-! ### Statistics -/

structure Stats where
  pass : ℚ := 0
  fail : ℚ := 0
  tokens : ℚ := 0
  score : ℚ := 0

def Stats.add (stats : Stats) (e : Similar) : Stats where
  pass := if scored env e.object = some true then stats.pass + e.weight env else stats.pass
  fail := if scored env e.object = some false then stats.fail + e.weight env else stats.fail
  tokens := stats.tokens + count env (e.object.properties.get "tokens") * e.weight env
  score := stats.score + e.weight env

/-- The statistics by model or by mode. -/
def statsBy (key : MemoryObject → String) (entries : List Similar) : OrderedMap String Stats :=
  entries.foldl (fun stats e =>
    stats.set (key e.object) (((stats.get? (key e.object)).getD {}).add env e)) ∅

structure Ranked where
  name : String
  passRate : ℚ
  evidence : ℚ
  expectedTokens : ℤ

def ranked (e : String × Stats) : Ranked where
  name := e.1
  passRate := e.2.pass / max (1 / 1000) (e.2.pass + e.2.fail)
  evidence := e.2.pass + e.2.fail
  expectedTokens := (e.2.tokens / max (1 / 1000) e.2.score + 1 / 2).floor

/-- `b.passRate - a.passRate || b.evidence - a.evidence` is not positive. -/
def Ranked.before (a b : Ranked) : Bool :=
  b.passRate < a.passRate || (b.passRate = a.passRate && b.evidence ≤ a.evidence)

def ranking (stats : OrderedMap String Stats) : List Ranked :=
  (stats.entries.map ranked).mergeSort Ranked.before

/-! ### The recommendation -/

structure RoutingCase where
  taskFamily : String
  language : String
  mode : String
  model : String
  outcome : Outcome
  outcomeClass : String
  sourceOfTruth : String
  reason : String
  tokens : ℚ
  durationMs : ℚ
  similarity : ℚ
  truthWeight : ℚ

def routingCase (e : Similar) : RoutingCase where
  taskFamily := text env (e.object.properties.get "taskFamily") "unknown"
  language := text env (e.object.properties.get "language") "unknown"
  mode := modeOf env e.object
  model := modelOf env e.object
  outcome := outcomeOf e.object
  outcomeClass := outcomeClassOf env e.object
  sourceOfTruth := sourceOf env e.object
  reason := text env (e.object.properties.get "reason") (outcomeOf e.object).name
  tokens := count env (e.object.properties.get "tokens")
  durationMs := count env (e.object.properties.get "durationMs")
  similarity := (e.similarity * 1000 + 1 / 2).floor / 1000
  truthWeight := truthFactor env e.object

structure RoutingBias where
  prefer : List String
  avoid : List String
  confidence : ℚ
  influence : ℚ
  evidence : Nat
  similarCases : List RoutingCase

structure Recommendation where
  mode : String
  model : String
  confidence : ℚ
  evidence : Nat
  expectedTokens : ℤ
  score : ℚ
  routingBias : RoutingBias

def prefer (rankedModels : List Ranked) : List String :=
  ((rankedModels.filter fun m => m.passRate ≥ 62 / 100).take 2).map Ranked.name

def avoid (rankedModels : List Ranked) : List String :=
  ((rankedModels.filter fun m => m.passRate ≤ 38 / 100 && m.evidence ≥ 35 / 100).take 3).map
    Ranked.name

def bestModel (rankedModels : List Ranked) (workerModel : Option String) : String :=
  ((prefer rankedModels).head?.or ((rankedModels.head?.map Ranked.name).or workerModel)).getD
    "unknown"

def buildEmpiricalRecommendation (taskDescription : String) (observations : List MemoryObject)
    (workerModel : Option String) : Option Recommendation :=
  let entries := similar env taskDescription observations
  if entries.length = 0 then none
  else
    let rankedModels := ranking (statsBy env (modelOf env) entries)
    let rankedModes := ranking (statsBy env (modeOf env) entries)
    let best := bestModel rankedModels workerModel
    let bestModelStats := rankedModels.find? fun m => m.name = best
    let evidence : ℚ := (bestModelStats.map Ranked.evidence).getD entries.length
    let confidence := min (9 / 10) (evidence / (evidence + 2))
    some
      { mode := (rankedModes.head?.map Ranked.name).getD "hard-prompt"
        model := workerModel.getD best
        confidence
        evidence := entries.length
        expectedTokens := (bestModelStats.map Ranked.expectedTokens).getD 0
        score := (rankedModes.head?.map Ranked.passRate).getD 0
        routingBias :=
          { prefer := prefer rankedModels
            avoid := avoid rankedModels
            confidence
            influence := 1 / 4
            evidence := entries.length
            similarCases := (entries.map (routingCase env)).take 5 } }

/-! ### Evidence and pass rates -/

section
variable (key : MemoryObject → String) (entries : List Similar)

/-- The observations of one model or of one mode. -/
def about (name : String) : List Similar := entries.filter fun e => key e.object = name

/-- The weight of what counts for a name (`verdict = true`) or against it. -/
def weightOf (verdict : Bool) (name : String) : ℚ :=
  (((about key entries name).filter fun e => scored env e.object = some verdict).map
    (Similar.weight env)).sum

def evidence (name : String) : ℚ :=
  weightOf env key entries true name + weightOf env key entries false name

def passRate (name : String) : ℚ :=
  weightOf env key entries true name / max (1 / 1000) (evidence env key entries name)

end

/-- The weight of what counts for a name or against it, as the statistics have it. -/
def Stats.total (stats : Stats) : Bool → ℚ
  | true => stats.pass
  | false => stats.fail

theorem total_add (stats : Stats) (e : Similar) (verdict : Bool) :
    (stats.add env e).total verdict =
      stats.total verdict + if scored env e.object = some verdict then e.weight env else 0 := by
  cases verdict <;> simp only [Stats.total, Stats.add] <;> split <;> simp

theorem total_foldl_add (entries : List Similar) (stats : Stats) (verdict : Bool) :
    (entries.foldl (Stats.add env) stats).total verdict = stats.total verdict +
      ((entries.filter fun e => scored env e.object = some verdict).map
        (Similar.weight env)).sum := by
  induction entries generalizing stats with
  | nil => simp
  | cons e entries ih =>
    rw [List.foldl_cons, ih, total_add]
    by_cases h : scored env e.object = some verdict
    · simp [h, add_assoc]
    · simp [h]

theorem about_append_singleton (key : MemoryObject → String) (entries : List Similar) (e : Similar)
    (name : String) : about key (entries ++ [e]) name =
      about key entries name ++ if key e.object = name then [e] else [] := by
  rw [about, List.filter_append, about]
  by_cases h : key e.object = name <;> simp [h]

/-- A name has the statistics of its own observations. -/
theorem get?_statsBy (key : MemoryObject → String) (entries : List Similar) (name : String) :
    (statsBy env key entries).get? name =
      if about key entries name = [] then none
      else some ((about key entries name).foldl (Stats.add env) {}) := by
  induction entries using List.reverseRecOn with
  | nil => rfl
  | append_singleton entries e ih =>
    rw [statsBy, List.foldl_append, List.foldl_cons, List.foldl_nil, ← statsBy, OrderedMap.get?_set,
      about_append_singleton]
    by_cases h : key e.object = name
    · rw [if_pos h, if_pos h, if_neg (by simp), List.foldl_append, h, ih]
      split
      · next hnone => rw [hnone]; rfl
      · rfl
    · rw [if_neg h, if_neg h, List.append_nil, ih]

theorem about_eq_nil_iff {key : MemoryObject → String} {entries : List Similar} {name : String} :
    about key entries name = [] ↔ name ∉ entries.map fun e => key e.object := by
  simp [about, List.filter_eq_nil_iff]

/-! ### The ranking -/

theorem mem_ranking {stats : OrderedMap String Stats} {r : Ranked} :
    r ∈ ranking stats ↔ ∃ e ∈ stats.entries, ranked e = r := by
  rw [ranking, List.mem_mergeSort, List.mem_map]

theorem ranked_name_injective {stats : OrderedMap String Stats} :
    ((ranking stats).map Ranked.name).Nodup := by
  have hperm := (List.mergeSort_perm (stats.entries.map ranked) Ranked.before).map Ranked.name
  rw [ranking, hperm.nodup_iff, List.map_map]
  exact stats.nodup

theorem before_iff {a b : Ranked} : a.before b ↔
    b.passRate < a.passRate ∨ b.passRate = a.passRate ∧ b.evidence ≤ a.evidence := by
  simp [Ranked.before]

theorem Ranked.before_trans (a b c : Ranked) (hab : a.before b) (hbc : b.before c) :
    a.before c := by
  rw [before_iff] at *
  grind

theorem Ranked.before_total (a b : Ranked) : a.before b || b.before a := by
  rw [Bool.or_eq_true, before_iff, before_iff]
  grind

theorem Ranked.before_refl (a : Ranked) : a.before a := by simp [Ranked.before]

/-- The first of the ranking comes before all of it. -/
theorem before_of_head {stats : OrderedMap String Stats} {top r : Ranked} {rest : List Ranked}
    (htop : ranking stats = top :: rest) (hr : r ∈ top :: rest) : top.before r := by
  have hsorted : (top :: rest).Pairwise fun a b => a.before b :=
    htop ▸ List.pairwise_mergeSort Ranked.before_trans Ranked.before_total _
  obtain rfl | hr := List.mem_cons.mp hr
  · exact r.before_refl
  · exact (List.pairwise_cons.mp hsorted).1 r hr

/-- What is ranked are the names of the observations, each with its own pass rate and evidence. -/
theorem ranking_statsBy {key : MemoryObject → String} {entries : List Similar} {r : Ranked}
    (hr : r ∈ ranking (statsBy env key entries)) :
    (r.name ∈ entries.map fun e => key e.object) ∧
      r.passRate = passRate env key entries r.name ∧
      r.evidence = evidence env key entries r.name := by
  obtain ⟨⟨name, stats⟩, he, rfl⟩ := mem_ranking.mp hr
  have hget := OrderedMap.mem_entries_iff.mp he
  rw [get?_statsBy] at hget
  split at hget
  · cases hget
  · next hsome =>
    have htotal (verdict : Bool) : stats.total verdict = weightOf env key entries verdict name := by
      rw [← Option.some.inj hget, total_foldl_add, weightOf]
      cases verdict <;> simp [Stats.total]
    have hpass : stats.pass = _ := htotal true
    have hfail : stats.fail = _ := htotal false
    refine ⟨by rwa [about_eq_nil_iff, not_not] at hsome, ?_, ?_⟩
    · simp only [ranked, passRate, evidence, hpass, hfail]
    · simp only [ranked, evidence, hpass, hfail]

theorem exists_ranked {key : MemoryObject → String} {entries : List Similar} {name : String}
    (hname : name ∈ entries.map fun e => key e.object) :
    ∃ r ∈ ranking (statsBy env key entries), r.name = name := by
  have hget := get?_statsBy env key entries name
  rw [if_neg (by rwa [about_eq_nil_iff, not_not])] at hget
  exact ⟨_, mem_ranking.mpr ⟨_, OrderedMap.mem_entries_iff.mpr hget, rfl⟩, rfl⟩

/-! ### Advice against a model -/

theorem bestModel_of_head {top : Ranked} {rest : List Ranked}
    (htop : ∀ r ∈ top :: rest, top.before r) (workerModel : Option String) :
    bestModel (top :: rest) workerModel = top.name := by
  rw [bestModel, prefer]
  by_cases hpass : top.passRate ≥ 62 / 100
  · rw [List.filter_cons_of_pos (by simpa using hpass)]
    rfl
  · have hnone : (top :: rest).filter (fun m => m.passRate ≥ 62 / 100) = [] := by
      refine List.filter_eq_nil_iff.mpr fun r hr => ?_
      have hbefore := before_iff.mp (htop r hr)
      rw [decide_eq_true_eq]
      grind
    rw [hnone]
    rfl

theorem head_mem_avoid {top : Ranked} {rest : List Ranked}
    (hnodup : ((top :: rest).map Ranked.name).Nodup) :
    top.name ∈ avoid (top :: rest) ↔ top.passRate ≤ 38 / 100 ∧ top.evidence ≥ 35 / 100 := by
  rw [avoid]
  by_cases h : top.passRate ≤ 38 / 100 ∧ top.evidence ≥ 35 / 100
  · rw [List.filter_cons_of_pos (by simpa using h)]
    exact iff_of_true List.mem_cons_self h
  · rw [List.filter_cons_of_neg (by simpa using h)]
    refine iff_of_false (fun hmem => ?_) h
    obtain ⟨r, hr, hname⟩ := List.mem_map.mp hmem
    have hr := (List.mem_filter.mp (List.mem_of_mem_take hr)).1
    exact (List.nodup_cons.mp hnodup).1 (hname ▸ List.mem_map_of_mem hr)

/-- All pass rates are low: of the names on the list of advice some is missing just if its evidence
is thin or the list is full. -/
theorem exists_notMem_avoid {rankedModels : List Ranked}
    (hnodup : (rankedModels.map Ranked.name).Nodup)
    (hlow : ∀ r ∈ rankedModels, r.passRate ≤ 38 / 100) :
    (∃ r ∈ rankedModels, r.name ∉ avoid rankedModels) ↔
      (∃ r ∈ rankedModels, ¬r.evidence ≥ 35 / 100) ∨
        3 < (rankedModels.filter fun r => r.evidence ≥ 35 / 100).length := by
  have hfilter : (rankedModels.filter fun r => r.passRate ≤ 38 / 100 && r.evidence ≥ 35 / 100) =
      rankedModels.filter fun r => r.evidence ≥ 35 / 100 :=
    List.filter_congr fun r hr => by simp [hlow r hr]
  have hname {r : Ranked} (hr : r ∈ rankedModels) : r.name ∈ avoid rankedModels ↔
      r ∈ (rankedModels.filter fun r => r.evidence ≥ 35 / 100).take 3 := by
    rw [avoid, hfilter]
    refine ⟨fun h => ?_, fun h => List.mem_map_of_mem h⟩
    obtain ⟨r', hr', heq⟩ := List.mem_map.mp h
    have hmem := (List.mem_filter.mp (List.mem_of_mem_take hr')).1
    rwa [← List.inj_on_of_nodup_map hnodup hmem hr heq]
  have htake := Lists.exists_notMem_take_filter hnodup.of_map
    (fun r : Ranked => r.evidence ≥ 35 / 100) 3
  simp only [decide_eq_true_eq] at htake
  rw [← htake]
  exact exists_congr fun r => and_congr_right fun hr => not_congr (hname hr)

/-! ### When a recommendation contradicts itself -/

section
variable (entries : List Similar)

def modelNames : List String := entries.map fun e => modelOf env e.object

/-- The models with enough evidence to advise against them. -/
def known : Finset String :=
  (modelNames env entries).toFinset.filter fun m => evidence env (modelOf env) entries m ≥ 35 / 100

/-- No model has a good pass rate, and one with enough evidence has the best. -/
def NoneGood : Prop :=
  ∃ m ∈ known env entries, passRate env (modelOf env) entries m ≤ 38 / 100 ∧
    ∀ n ∈ modelNames env entries,
      passRate env (modelOf env) entries n ≤ passRate env (modelOf env) entries m

/-- Some model has little evidence, or more than three models have enough. -/
def SomeUnlisted : Prop :=
  (∃ m ∈ modelNames env entries, m ∉ known env entries) ∨ 3 < (known env entries).card

end

theorem mem_known {entries : List Similar} {m : String} : m ∈ known env entries ↔
    m ∈ modelNames env entries ∧ evidence env (modelOf env) entries m ≥ 35 / 100 := by
  simp [known]

/-- The models of a ranking. -/
def modelRanking (entries : List Similar) : List Ranked :=
  ranking (statsBy env (modelOf env) entries)

theorem nodup_modelRanking (entries : List Similar) :
    ((modelRanking env entries).map Ranked.name).Nodup := ranked_name_injective

theorem modelRanking_ne_nil {entries : List Similar} (h : entries ≠ []) :
    modelRanking env entries ≠ [] := by
  obtain ⟨e, rest, rfl⟩ := List.exists_cons_of_ne_nil h
  have hmem : modelOf env e.object ∈ (e :: rest).map fun e => modelOf env e.object :=
    List.mem_cons_self
  obtain ⟨r, hr, -⟩ := exists_ranked env hmem
  exact List.ne_nil_of_mem hr

/-- A statement about the ranked models is one about the names of the models. -/
theorem exists_modelRanking {entries : List Similar} {p : String → Prop} :
    (∃ r ∈ modelRanking env entries, p r.name) ↔ ∃ m ∈ modelNames env entries, p m := by
  constructor
  · rintro ⟨r, hr, hp⟩
    exact ⟨r.name, (ranking_statsBy env hr).1, hp⟩
  · rintro ⟨m, hm, hp⟩
    obtain ⟨r, hr, rfl⟩ := exists_ranked env hm
    exact ⟨r, hr, hp⟩

theorem known_card (entries : List Similar) : (known env entries).card =
    ((modelRanking env entries).filter fun r => r.evidence ≥ 35 / 100).length := by
  have hnodup : (((modelRanking env entries).filter fun r => r.evidence ≥ 35 / 100).map
      Ranked.name).Nodup := (nodup_modelRanking env entries).sublist (List.filter_sublist.map _)
  have heq : known env entries = (((modelRanking env entries).filter fun r =>
      r.evidence ≥ 35 / 100).map Ranked.name).toFinset := by
    ext m
    rw [mem_known, List.mem_toFinset, List.mem_map]
    constructor
    · rintro ⟨hm, hevidence⟩
      obtain ⟨r, hr, rfl⟩ := exists_ranked env hm
      rw [← (ranking_statsBy env hr).2.2] at hevidence
      exact ⟨r, List.mem_filter.mpr ⟨hr, decide_eq_true hevidence⟩, rfl⟩
    · rintro ⟨r, hr, rfl⟩
      obtain ⟨hr, hevidence⟩ := List.mem_filter.mp hr
      obtain ⟨hname, -, heq⟩ := ranking_statsBy env hr
      exact ⟨hname, heq ▸ of_decide_eq_true hevidence⟩
  rw [heq, List.toFinset_card_of_nodup hnodup, List.length_map]

theorem noneGood_iff {entries : List Similar} {top : Ranked} {rest : List Ranked}
    (htop : modelRanking env entries = top :: rest) :
    NoneGood env entries ↔ top.passRate ≤ 38 / 100 ∧ top.evidence ≥ 35 / 100 := by
  obtain ⟨hname, hrate, hevidence⟩ := ranking_statsBy env
    (show top ∈ modelRanking env entries from htop ▸ List.mem_cons_self)
  have hbest {r : Ranked} (hr : r ∈ modelRanking env entries) : r.passRate < top.passRate ∨
      r.passRate = top.passRate ∧ r.evidence ≤ top.evidence := by
    rw [htop] at hr
    exact before_iff.mp (before_of_head htop hr)
  constructor
  · rintro ⟨m, hm, hlow, hmax⟩
    obtain ⟨hm, hknown⟩ := (mem_known env).mp hm
    obtain ⟨r, hr, rfl⟩ := exists_ranked env hm
    have hle := hmax _ hname
    obtain ⟨-, hrate', hevidence'⟩ := ranking_statsBy env hr
    rw [← hrate, ← hrate'] at hle
    rw [← hrate'] at hlow
    rw [← hevidence'] at hknown
    obtain hlt | ⟨heq, hev⟩ := hbest hr
    · exact absurd hlt (not_lt.mpr hle)
    · exact ⟨heq ▸ hlow, hknown.trans hev⟩
  · rintro ⟨hlow, hknown⟩
    refine ⟨top.name, (mem_known env).mpr ⟨hname, hevidence ▸ hknown⟩, hrate ▸ hlow,
      fun n hn => ?_⟩
    obtain ⟨r, hr, rfl⟩ := exists_ranked env hn
    rw [← hrate, ← (ranking_statsBy env hr).2.1]
    obtain hlt | ⟨heq, -⟩ := hbest hr
    · exact hlt.le
    · exact heq.le

theorem someUnlisted_iff {entries : List Similar} (h : NoneGood env entries) :
    SomeUnlisted env entries ↔
      ∃ m ∈ modelNames env entries, m ∉ avoid (modelRanking env entries) := by
  obtain ⟨best, -, hlow, hmax⟩ := h
  have hrates : ∀ r ∈ modelRanking env entries, r.passRate ≤ 38 / 100 := fun r hr => by
    obtain ⟨hname, hrate, -⟩ := ranking_statsBy env hr
    exact hrate ▸ (hmax _ hname).trans hlow
  rw [← exists_modelRanking env, exists_notMem_avoid (nodup_modelRanking env entries) hrates,
    SomeUnlisted, known_card, ← exists_modelRanking env]
  refine or_congr_left (exists_congr fun r => and_congr_right fun hr => not_congr ?_)
  obtain ⟨hname, -, hevidence⟩ := ranking_statsBy env hr
  rw [mem_known, ← hevidence]
  exact and_iff_right hname

/-- What the engine recommends is the first of the ranking. -/
theorem recommends {taskDescription : String} {observations : List MemoryObject}
    (h : similar env taskDescription observations ≠ []) :
    ∃ r, buildEmpiricalRecommendation env taskDescription observations none = some r ∧
      r.routingBias.avoid = avoid (modelRanking env (similar env taskDescription observations)) ∧
      (r.model ∈ r.routingBias.avoid ↔
        NoneGood env (similar env taskDescription observations)) := by
  obtain ⟨top, rest, htop⟩ := List.exists_cons_of_ne_nil (modelRanking_ne_nil env h)
  have hbest : bestModel (modelRanking env (similar env taskDescription observations)) none =
      top.name := htop ▸ bestModel_of_head (fun r hr => before_of_head htop hr) none
  have hmem := head_mem_avoid (htop ▸ nodup_modelRanking env _)
  rw [buildEmpiricalRecommendation]
  dsimp only
  rw [if_neg (by simpa using h), ← modelRanking, hbest]
  refine ⟨_, rfl, rfl, ?_⟩
  rw [noneGood_iff env htop, ← hmem, ← htop]
  rfl

/-- Nothing is recommended and advised against while some ranked model is not advised against. -/
def Coherent (taskDescription : String) (observations : List MemoryObject) : Prop :=
  ∀ r, buildEmpiricalRecommendation env taskDescription observations none = some r →
    (∃ m ∈ modelNames env (similar env taskDescription observations), m ∉ r.routingBias.avoid) →
      r.model ∉ r.routingBias.avoid

theorem not_coherent {taskDescription : String} {observations : List MemoryObject}
    (hnone : NoneGood env (similar env taskDescription observations))
    (hunlisted : SomeUnlisted env (similar env taskDescription observations)) :
    ¬Coherent env taskDescription observations := by
  have hsimilar : similar env taskDescription observations ≠ [] := by
    rintro hnil
    obtain ⟨m, hm, -⟩ := hnone
    simp [hnil, mem_known, modelNames] at hm
  obtain ⟨r, hr, havoid, hmodel⟩ := recommends env hsimilar
  rw [someUnlisted_iff env hnone, ← havoid] at hunlisted
  exact fun hcoherent => hcoherent r hr hunlisted (hmodel.mpr hnone)

/-- A recommendation contradicts itself just if a model with enough evidence has the best pass rate,
that rate is low, and either some model has little evidence or more than three have enough. -/
theorem coherent_iff (taskDescription : String) (observations : List MemoryObject) :
    Coherent env taskDescription observations ↔
      ¬(NoneGood env (similar env taskDescription observations) ∧
        SomeUnlisted env (similar env taskDescription observations)) := by
  refine ⟨fun h hboth => not_coherent env hboth.1 hboth.2 h, fun h r hr hother hmodel => h ?_⟩
  have hsimilar : similar env taskDescription observations ≠ [] := by
    rintro hnil
    simp [hnil, modelNames] at hother
  obtain ⟨r', hr', havoid, hmodel'⟩ := recommends env hsimilar
  obtain rfl := Option.some.inj (hr.symm.trans hr')
  have hnone := hmodel'.mp hmodel
  rw [someUnlisted_iff env hnone, ← havoid]
  exact ⟨hnone, hother⟩

/-! ### A recommendation that contradicts itself -/

/-- The square roots of square numbers. -/
def squareEnv : Env where
  sqrt q := (Nat.sqrt q.num.toNat : ℚ)
  display _ := ""
  number _ := 0

/-- An observation of a task with this description, by what the engine reads of it. -/
def observation (model outcome : String) : MemoryObject where
  id := "obs-" ++ model
  kind := "task-observation"
  taskId := model
  timestamp := "2026-01-01T00:00:00.000Z"
  description := "deploy"
  properties :=
    .cons "model" (.string model) <|
    .cons "outcome" (.string outcome) <|
    .cons "vector" (.array ((vectorize (tokenize "deploy") 64).foldr
      (fun q rest => .cons (.number (.finite q)) rest) .nil)) .nil
  tags := []

def failedAndUnknown : List Similar :=
  [⟨observation "alpha" "fail", 1⟩, ⟨observation "beta" "error", 1⟩]

theorem similar_failedAndUnknown : similar squareEnv "deploy"
    [observation "alpha" "fail", observation "beta" "error"] = failedAndUnknown := by
  have halpha : min 1 (cosine squareEnv (vectorize (tokenize "deploy") 64)
      (vectorOf squareEnv (observation "alpha" "fail")) + 0) = 1 := by
    decide +kernel
  have hbeta : min 1 (cosine squareEnv (vectorize (tokenize "deploy") 64)
      (vectorOf squareEnv (observation "beta" "error")) + 0) = 1 := by
    decide +kernel
  have hfamily (model outcome : String) : ((observation model outcome).properties.get
      "taskFamily").isString (detectFamily "deploy") = false := rfl
  simp only [similar, List.map_cons, List.map_nil, hfamily, Bool.false_eq_true, if_false, halpha,
    hbeta]
  rw [List.filter_eq_self.mpr (by norm_num), List.mergeSort_of_pairwise (by simp)]
  rfl

/-- A model that has failed is recommended and advised against beside one that nothing is known
of. -/
theorem failed_model_recommended : ¬Coherent squareEnv "deploy"
    [observation "alpha" "fail", observation "beta" "error"] := by
  have halpha : evidence squareEnv (modelOf squareEnv) failedAndUnknown "alpha" = 1 := by
    decide +kernel
  refine not_coherent squareEnv ?_ ?_
  · rw [similar_failedAndUnknown]
    refine ⟨"alpha", (mem_known _).mpr ⟨by decide +kernel, ?_⟩, by decide +kernel, ?_⟩
    · rw [halpha]; norm_num
    · decide +kernel
  · rw [similar_failedAndUnknown]
    refine Or.inl ⟨"beta", by decide, fun h => ?_⟩
    exact absurd ((mem_known _).mp h).2 (by decide +kernel)

end KirkForge.RoutingEngine
