import KirkForge.Orchestrator.Types
import KirkForge.Theory.OrderedMap
import KirkForge.Theory.Text

/-!
# The task classifier

`classifier-nlp.ts`: a description is compared with the centroid of each mode. The centroids are
those of the archetypes and of the examples that were learned. Floating point numbers are an
argument, with the operations that the source uses on them.
-/

namespace KirkForge

/-- The operations on numbers of the type `number`. -/
structure FloatOps (α : Type) where
  ofRat : ℚ → α
  add : α → α → α
  sub : α → α → α
  mul : α → α → α
  div : α → α → α
  log : α → α
  sqrt : α → α
  max : α → α → α
  min : α → α → α
  gt : α → α → Bool
  isZero : α → Bool

namespace Nlp

def archetypes : List (DelegationMode × List String) := [
  (.artifact, [
    "create a new react component file",
    "generate a python module for data processing",
    "write a typescript utility function",
    "build a REST API endpoint handler",
    "make a configuration file for deployment",
    "implement a database migration script",
    "scaffold a new service module",
    "generate unit tests for the auth module",
    "write a Dockerfile for the application",
    "create a bash deployment script",
    "build a CSS stylesheet for the dashboard",
    "generate HTML template for email notifications",
    "write a SQL migration for adding columns",
    "implement a go middleware handler",
    "create a rust library module"]),
  (.schemaContract, [
    "audit the codebase for security vulnerabilities",
    "assess the architecture for scalability issues",
    "evaluate the test coverage gaps",
    "review the pull request for merge readiness",
    "validate the input configuration against schema",
    "verify the deployment manifests are correct",
    "analyze the dependency tree for outdated packages",
    "inspect the logging configuration for completeness",
    "check all environment variables are documented",
    "examine the error handling patterns",
    "summarize the changes in this release",
    "document the API endpoints with OpenAPI spec",
    "compare the two implementations for correctness"]),
  (.hardPrompt, [
    "fix the lint errors in the auth module",
    "repair the broken type definitions",
    "refactor the database access layer",
    "optimize the slow query performance",
    "debug the authentication middleware",
    "resolve the merge conflicts in main branch",
    "patch the security vulnerability in dependencies",
    "correct the import path references",
    "update the deprecated API calls",
    "simplify the complex reducer logic",
    "clean up unused variables and imports",
    "migrate from old API to new API version",
    "troubleshoot the failing integration tests",
    "tighten the type annotations across the module"])]

def stopWords : List String := [
  "the", "a", "an", "is", "are", "was", "were", "be", "been", "being", "have", "has", "had", "do",
  "does", "did", "will", "would", "could", "should", "may", "might", "can", "shall", "to", "of",
  "in", "for", "on", "with", "at", "by", "from", "as", "into", "through", "during", "before",
  "after", "above", "below", "between", "out", "off", "over", "under", "again", "further", "then",
  "once", "here", "there", "when", "where", "why", "how", "all", "both", "each", "few", "more",
  "most", "other", "some", "such", "no", "nor", "not", "only", "own", "same", "so", "than", "too",
  "very", "just", "about", "and", "but", "or", "it", "its", "this", "that", "these", "those"]

/-- A character that `replace` leaves: a lower case letter, a digit or white space. -/
def isTokenChar (c : Char) : Bool :=
  ('a' ≤ c && c ≤ 'z') || ('0' ≤ c && c ≤ '9') || Text.isWhitespace c

/-- The words of a text that are longer than one character. -/
def words (text : String) : List String :=
  let replaced := (Text.toLowerCase text).toList.map fun c => if isTokenChar c then c else ' '
  (Text.splitSpaces (String.ofList replaced)).filter fun t => t.length > 1

def tokenize (text : String) : List String := (words text).filter fun t => t ∉ stopWords

/-- `map.set(token, (map.get(token) ?? 0) + 1)` -/
def increment (map : OrderedMap String Nat) (token : String) : OrderedMap String Nat :=
  map.set token ((map.get? token).getD 0 + 1)

section
variable {α : Type} (ops : FloatOps α)

structure TfIdfModel (α : Type) where
  vocabulary : List String
  idf : String → Option α
  centroids : List (DelegationMode × List α)

def computeTf (doc : List String) (token : String) : Option α :=
  let total := if doc.length = 0 then 1 else doc.length
  ((doc.foldl increment ∅).get? token).map fun v => ops.div (ops.ofRat v) (ops.ofRat total)

/-- The number of documents that a token is in. -/
def documentFrequency (docs : List (List String)) : OrderedMap String Nat :=
  docs.foldl (fun df doc => doc.eraseDups.foldl increment df) ∅

def buildVocabulary (docs : List (List String)) : List String × (String → Option α) :=
  let df := documentFrequency docs
  (df.keys.mergeSort Text.le, fun token => (df.get? token).map fun count =>
    ops.add (ops.log (ops.div (ops.ofRat (docs.length + 1)) (ops.ofRat (count + 1)))) (ops.ofRat 1))

def vectorize (doc vocabulary : List String) (idf : String → Option α) : List α :=
  vocabulary.map fun token =>
    ops.mul ((computeTf ops doc token).getD (ops.ofRat 0)) ((idf token).getD (ops.ofRat 0))

def dotProduct (a b : List α) : α :=
  (a.zip b).foldl (fun sum p => ops.add sum (ops.mul p.1 p.2)) (ops.ofRat 0)

def cosineSimilarity (a b : List α) : α :=
  let denom := ops.mul (ops.sqrt (dotProduct ops a a)) (ops.sqrt (dotProduct ops b b))
  if ops.isZero denom then ops.ofRat 0 else ops.div (dotProduct ops a b) denom

/-- A positive example: its tokens and its mode. -/
abbrev PositiveExample := DelegationMode × List String

/-- The documents of each mode. -/
def modeDocs (learned : List PositiveExample) : OrderedMap DelegationMode (List (List String)) :=
  learned.foldl (fun docs ex => docs.set ex.1 (((docs.get? ex.1).getD []) ++ [ex.2]))
    (archetypes.foldl (fun docs a => docs.set a.1 (a.2.map tokenize)) ∅)

def allDocs (learned : List PositiveExample) : List (List String) :=
  archetypes.flatMap (fun a => a.2.map tokenize) ++ learned.map (·.2)

def centroid (vocabulary : List String) (idf : String → Option α) (docs : List (List String)) :
    List α :=
  let vectors := docs.map fun d => vectorize ops d vocabulary idf
  let sum := vectors.foldl (fun sum v => List.zipWith ops.add sum v)
    (vocabulary.map fun _ => ops.ofRat 0)
  sum.map fun x => ops.div x (ops.ofRat vectors.length)

/-- What `getModel` builds. -/
def buildModel (learned : List PositiveExample) : TfIdfModel α :=
  let (vocabulary, idf) := buildVocabulary ops (allDocs learned)
  { vocabulary, idf
    centroids := (modeDocs learned).entries.map fun (mode, docs) =>
      (mode, centroid ops vocabulary idf docs) }

structure NlpResult (α : Type) where
  mode : DelegationMode
  confidence : α
  scores : DelegationMode → α

/-- The modes in the order in which `scores` lists them. -/
def modes : List DelegationMode := [.artifact, .schemaContract, .hardPrompt, .taskDecompose]

/-- What `classifyNlp` makes of a description with a model. -/
def classify (model : TfIdfModel α) (description : String) : NlpResult α :=
  let vec := vectorize ops (tokenize description) model.vocabulary model.idf
  let scores (mode : DelegationMode) : α :=
    match model.centroids.find? fun c => c.1 = mode with
    | some c => cosineSimilarity ops vec c.2
    | none => ops.ofRat 0
  let best := modes.foldl
    (fun best mode => if ops.gt (scores mode) best.2 then (mode, scores mode) else best)
    (DelegationMode.hardPrompt, ops.ofRat 0)
  let sorted := (modes.map scores).mergeSort fun a b => !ops.gt b a
  let first := sorted.headD (ops.ofRat 0)
  let margin := ops.sub first ((sorted.drop 1).headD (ops.ofRat 0))
  { mode := best.1
    confidence := ops.min (ops.ofRat 1) (ops.max (ops.ofRat 0)
      (ops.div margin (ops.max (ops.ofRat (1 / 100)) first)))
    scores }

end

end Nlp

end KirkForge
