import KirkForge.Orchestrator.ArtifactMode
import KirkForge.Orchestrator.ParseDecomposition
import KirkForge.Theory.Scanning

/-!
# Decomposition responses

`parseDecompositionResponse` (`decompose.ts`): the subtasks that a model's answer lists as JSON in a
fenced block, as JSON in its text, or line by line; an answer that lists none is one subtask. An
exception on the way is caught, and the next form is tried. Strings and numbers are the same
wherever they stand in JSON, but two objects are never the same, so an object is named by its place.
-/

namespace KirkForge.Decompose

open Text (indexOf lastIndexOf)

/-- What `===` and the keys of a `Map` compare. -/
inductive Label
  | value (j : Json)
  /-- The id of the subtask at a place of the list, or one of its dependencies. -/
  | object (task : Nat) (dependency : Option Nat)
  deriving DecidableEq

def Label.of (task : Nat) (dependency : Option Nat) : Json → Label
  | .arr _ | .obj _ => object task dependency
  | j => value j

def Label.text (s : String) : Label := value (.str s)

structure DecompositionSubtask where
  id : Label
  description : Json
  language : Json
  dependsOn : List Label
  estimatedTokens : Json
  schemaContract : Option Json := none
  deriving DecidableEq

/-- What adding up gives: once a summand is no number, the texts are joined. -/
inductive TokenTotal
  | number (x : JsNumber)
  | text (s : String)
  /-- The total that the answer names. -/
  | given (j : Json)
  deriving DecidableEq

structure ParsedDecomposition where
  subtasks : List DecompositionSubtask
  totalEstimatedTokens : TokenTotal
  rationale : Json
  deriving DecidableEq

/-! ### JSON -/

/-- `j.a ?? j.b ?? ...`, unless all are missing or `null`. -/
def firstPresent (j : Json) (keys : List String) : Option Json :=
  (keys.filterMap j.get?).find? (· ≠ .null)

/-- `j.a || j.b || ...`, unless all are false. -/
def firstTruthy (j : Json) (keys : List String) : Option Json :=
  (keys.filterMap j.get?).find? Json.truthy

/-- `s + value`; `none` when it throws. -/
def TokenTotal.plus (total : TokenTotal) (value : Json) : Option TokenTotal :=
  match total, value with
  | number x, .null => some (number x)
  | number x, .bool b => some (number (x + if b then 1 else 0).rounded)
  | number x, .num q => some (number (x + JsNumber.ofRead q).rounded)
  | number x, value => value.literal.map fun t => text (x.text ++ t)
  | text s, value => value.literal.map fun t => text (s ++ t)
  | given j, _ => some (given j)

/-- `tasks.reduce((s, t) => s + t.estimatedTokens, 0)` on the numbers of tokens. -/
def sumTokens (tokens : List Json) : Option TokenTotal :=
  tokens.foldlM TokenTotal.plus (.number 0)

/-- The id of the element at place `i`. -/
def itemLabel (i : Nat) (t : Json) : Label :=
  Label.of i none ((firstPresent t ["id"]).getD (.str ("sub-" ++ toString (i + 1))))

def itemDependencies (i : Nat) (t : Json) : List Label :=
  match t.get? "dependsOn" with
  | some (.arr deps) => deps.mapIdx fun k dep => Label.of i (some k) dep
  | _ => []

def itemTokens (t : Json) : Json := (firstPresent t ["estimatedTokens"]).getD (.num 500)

/-- An element of a list whose descriptions stand under the given keys. -/
def itemSubtask (rootTask : String) (descriptionKeys : List String) (i : Nat) (t : Json) :
    DecompositionSubtask where
  id := itemLabel i t
  description := (firstPresent t descriptionKeys).getD (.str rootTask)
  language := (firstPresent t ["language"]).getD (.str "typescript")
  dependsOn := itemDependencies i t
  estimatedTokens := itemTokens t

def structuredSubtask (rootTask : String) (i : Nat) (t : Json) : DecompositionSubtask :=
  { itemSubtask rootTask ["description", "task"] i t with schemaContract := t.get? "schemaContract" }

def inlineSubtask (rootTask : String) (i : Nat) (t : Json) : DecompositionSubtask :=
  itemSubtask rootTask ["description"] i t

/-- The JSON in the fenced block and the list in it; `none` when there is no list or an exception is
caught. -/
def structuredList (content : String) : Option (Json × List Json) :=
  (codeBlock content.toList).bind fun block =>
  (Json.read (Text.trim (String.ofList block))).bind fun parsed =>
    -- the list is looked for with `||` and taken with `??`
    match firstTruthy parsed ["subtasks", "tasks", "steps"],
      firstPresent parsed ["subtasks", "tasks", "steps"] with
    | some (.arr _), some (.arr items) => if Json.null ∈ items then none else some (parsed, items)
    | _, _ => none

def parseStructured (content rootTask : String) : Option ParsedDecomposition :=
  (structuredList content).bind fun list =>
    let tasks := list.2.mapIdx (structuredSubtask rootTask)
    let total :=
      match firstPresent list.1 ["totalEstimatedTokens"] with
      | some named => some (TokenTotal.given named)
      | none => sumTokens (tasks.map DecompositionSubtask.estimatedTokens)
    total.map fun total => {
      subtasks := tasks
      totalEstimatedTokens := total
      rationale := (firstPresent list.1 ["rationale"]).getD
        (.str "Decomposition from structured response") }

/-- `content.match(/\{[\s\S]*"subtasks"[\s\S]*\}|\{[\s\S]*"tasks"[\s\S]*\}/)`: from the first brace
to the last one, if one of the keys stands between them. -/
def inlineJson (cs : List Char) : Option (List Char) :=
  (indexOf ['\x7b'] cs).bind fun first =>
  (lastIndexOf ['\x7d'] cs).bind fun last =>
    let between := (cs.take last).drop (first + 1)
    if "\"subtasks\"".toList <:+: between ∨ "\"tasks\"".toList <:+: between then
      some ((cs.take (last + 1)).drop first)
    else none

/-- The JSON in the text and the list in it; `none` when there is no list or an exception is
caught. -/
def inlineList (content : String) : Option (Json × List Json) :=
  (inlineJson content.toList).bind fun text =>
  (Json.read (String.ofList text)).bind fun parsed =>
    match firstPresent parsed ["subtasks", "tasks"] with
    | some (.arr items) => if Json.null ∈ items then none else some (parsed, items)
    | _ => none

def parseInline (content rootTask : String) : Option ParsedDecomposition :=
  (inlineList content).bind fun list =>
    let tasks := list.2.mapIdx (inlineSubtask rootTask)
    (sumTokens (tasks.map DecompositionSubtask.estimatedTokens)).map fun total => {
      subtasks := tasks
      totalEstimatedTokens := total
      rationale := (firstPresent list.1 ["rationale"]).getD
        (.str "Decomposition from inline JSON") }

/-! ### Lists -/

/-- `\s+(.+)`: as the line does not end in white space, all of it that follows is taken. -/
def itemText (cs : List Char) : Option (List Char) :=
  (Scan.many1 Text.isWhitespace cs).bind fun r =>
    let group := r.2.takeWhile fun c => !isLineTerminator c
    if group = [] then none else some group

/-- `line.match(/^(\d+)[.)]\s+(.+)/)`: the number and the text. -/
def numberedMatch (cs : List Char) : Option (JsNumber × List Char) :=
  (Scan.many1 Char.isDigit cs).bind fun r =>
    match r.2 with
    | [] => none
    | c :: rest =>
      if c = '.' ∨ c = ')' then
        (itemText rest).map fun text =>
          (JsNumber.ofRead (JsNumber.double (Json.natOfDigits r.1)), text)
      else none

/-- `line.match(/^[-*]\s+(.+)/)` -/
def bulletMatch : List Char → Option (List Char)
  | [] => none
  | c :: rest => if c = '-' ∨ c = '*' then itemText rest else none

/-- What the item of a line is counted as, and its text; a bullet is counted by the items before it.
One is taken away from the number of a line and added again. -/
def lineItem (before : Nat) (line : String) : Option (JsNumber × List Char) :=
  match numberedMatch line.toList with
  | some (number, text) => some ((number - 1).rounded, text)
  | none => (bulletMatch line.toList).map fun text => ((before : JsNumber), text)

/-- `sub-${idx + 1}` -/
def lineLabel (idx : JsNumber) : Label := .text ("sub-" ++ (idx + 1).rounded.text)

def lineSubtask (idx : JsNumber) (text : List Char) : DecompositionSubtask where
  id := lineLabel idx
  description := .str (Text.trim (String.ofList text))
  language := .str "typescript"
  dependsOn := if idx.gt 0 then [.text ("sub-" ++ idx.text)] else []
  estimatedTokens := .num 500

def contentLines (content : String) : List String :=
  ((Text.split '\n' content).map Text.trim).filter (· ≠ "")

/-- The body of the loop over the lines. -/
def addLine (subtasks : List DecompositionSubtask) (line : String) : List DecompositionSubtask :=
  match lineItem subtasks.length line with
  | some (idx, text) => subtasks ++ [lineSubtask idx text]
  | none => subtasks

def singleSubtask (rootTask : String) : DecompositionSubtask where
  id := .text "sub-1"
  description := .str rootTask
  language := .str "typescript"
  dependsOn := []
  estimatedTokens := .num 1000

def parseLines (content rootTask : String) : ParsedDecomposition :=
  let listed := (contentLines content).foldl addLine []
  let subtasks := if listed = [] then [singleSubtask rootTask] else listed
  { subtasks
    -- the summands are numbers, so nothing is thrown
    totalEstimatedTokens := (sumTokens (subtasks.map DecompositionSubtask.estimatedTokens)).getD (.number 0)
    rationale := .str (if listed = [] then "Could not decompose; treating as single task"
      else "Auto-decomposed from text response") }

def parseDecompositionResponse (content rootTask : String) : ParsedDecomposition :=
  ((parseStructured content rootTask).or (parseInline content rootTask)).getD
    (parseLines content rootTask)

end KirkForge.Decompose
