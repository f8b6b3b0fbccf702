import KirkForge.Theory.OrderedMap
import KirkForge.Theory.Scanning
import KirkForge.Theory.Text

/-!
# The verifier of imports

`ImportLintEngine` (`packages/tool-lint-imports/src/rules.ts`). A file is scanned line by line. Each
pattern is read without a choice: its alternatives begin with different letters, and no repetition
takes a character with which what follows it may begin. The tables are plain objects.
-/

namespace KirkForge.ImportLint

open Scan

structure RenameEntry where
  replacedBy : String
  deprecatedSince : String
  reason : String

abbrev Renames := List (String × RenameEntry)

inductive SourceLanguage
  | python | typescript
  deriving DecidableEq, Repr

inductive Severity
  | warning | info
  deriving DecidableEq, Repr

/-- The new name and the reason are `undefined` if the entry has none. -/
structure ImportFinding where
  file : String
  line : Nat
  rule : String
  oldName : String
  newName : Option String
  reason : Option String
  severity : Severity
  sourceLanguage : SourceLanguage
  deriving DecidableEq

/-! ### The patterns -/

def isQuote (c : Char) : Bool := c = '\x27' || c = '"'

/-- `['"]([^'"]+)['"]` -/
def literal (cs : List Char) : Option (List Char × List Char) :=
  match cs with
  | [] => none
  | q :: cs =>
    if isQuote q then
      (many1 (fun c => !isQuote c) cs).bind fun (specifier, rest) =>
        match rest with
        | [] => none
        | q' :: rest => if isQuote q' then some (specifier, rest) else none
    else none

/-- `\s+` and a literal -/
def spacedLiteral (cs : List Char) : Option (List Char × List Char) :=
  (many1 Text.isWhitespace cs).bind fun r => literal r.2

/-- `\s*` and a literal -/
def argument (cs : List Char) : Option (List Char × List Char) :=
  literal (many Text.isWhitespace cs).2

/-- `/\b(?:from\s+|require\(\s*|import\(\s*)['"]([^'"]+)['"]/` -/
def RE_JS_IMPORT (prev : Option Char) (cs : List Char) : Option (List Char × List Char) :=
  if Pattern.isBoundary prev cs.head? then
    ((keyword "from" cs).bind spacedLiteral).or
      (((keyword "require(" cs).bind argument).or ((keyword "import(" cs).bind argument))
  else none

/-- `/import\(\s*['"]([^'"]+)['"]\s*\)/` -/
def RE_JS_DYNAMIC (_prev : Option Char) (cs : List Char) : Option (List Char × List Char) :=
  (keyword "import(" cs).bind fun cs => (argument cs).bind fun (specifier, rest) =>
    (keyword ")" (many Text.isWhitespace rest).2).map (specifier, ·)

def isBlank (c : Char) : Bool := c = ' ' || c = '\t'

/-- `/^[ \t]*import\s+['"]([^'"]+)['"]/` -/
def RE_JS_SIDE_EFFECT (line : List Char) : Option (List Char) :=
  ((keyword "import" (many isBlank line).2).bind spacedLiteral).map Prod.fst

/-- `[\w.]` -/
def isNamePart (c : Char) : Bool := Pattern.isWordChar c || c = '.'

/-- `[A-Za-z_][\w.]*` -/
def name (cs : List Char) : Option (List Char × List Char) :=
  match cs with
  | [] => none
  | c :: rest =>
    if c.isAlpha || c = '_' then some (c :: (many isNamePart rest).1, (many isNamePart rest).2)
    else none

/-- `import\s+([A-Za-z_][\w.]*)` -/
def pyImport (cs : List Char) : Option (List Char × List Char) :=
  ((keyword "import" cs).bind (many1 Text.isWhitespace)).bind fun r => name r.2

/-- `from\s+([A-Za-z_][\w.]*)\s+import` -/
def pyFrom (cs : List Char) : Option (List Char × List Char) :=
  ((keyword "from" cs).bind (many1 Text.isWhitespace)).bind fun r => (name r.2).bind
    fun (raw, rest) => ((many1 Text.isWhitespace rest).bind fun r => keyword "import" r.2).map
      (raw, ·)

/-- The group that has matched in `/^[ \t]*(?:import\s+(…)|from\s+(…)\s+import)/` -/
def RE_PY_IMPORT (line : List Char) : Option (List Char) :=
  let cs := (many isBlank line).2
  ((pyImport cs).or (pyFrom cs)).map Prod.fst

/-- What a global pattern matches in the loop that runs it until it fails. -/
def execAll (pattern : Option Char → List Char → Option (List Char × List Char))
    (line : List Char) : List (List Char) :=
  readings (fun _ c => some c) pattern 0 none line

/-! ### Packages -/

/-- `name.split(".")[0]` -/
def topLevelPythonPackage (name : List Char) : String := String.ofList (name.takeWhile (· ≠ '.'))

/-- The empty string if the specifier names no package. -/
def topLevelJsPackage (specifier : List Char) : String :=
  let s := String.ofList specifier
  if Text.startsWith s "node:" then ""
  else if Text.startsWith s "file:" ∨ Text.startsWith s "./" ∨ Text.startsWith s "../" ∨
      Text.startsWith s "/" then ""
  else
    let parts := Text.split '/' s
    if Text.startsWith s "@" then
      match parts with
      | scope :: name :: _ => scope ++ "/" ++ name
      | _ => ""
    else parts.headD ""

/-- `renames[pkg]`, if it is truthy. What is inherited has none of the fields of an entry. -/
def entryOf (renames : Renames) (pkg : String) : Option (Option RenameEntry) :=
  match OrderedMap.lookup pkg renames with
  | some entry => some (some entry)
  | none => if pkg ∈ inheritedProperties then some none else none

/-! ### Scanning -/

def finding (file : String) (lineIdx : Nat) (pkg : String) (entry : Option RenameEntry)
    (sourceLanguage : SourceLanguage) : ImportFinding where
  file := file
  line := lineIdx + 1
  rule := "import-renamed"
  oldName := pkg
  newName := entry.map RenameEntry.replacedBy
  reason := entry.map RenameEntry.reason
  severity := .warning
  sourceLanguage := sourceLanguage

/-- The finding for the name of a package, if it is in the table. -/
def check (renames : Renames) (file : String) (lineIdx : Nat) (language : SourceLanguage)
    (pkg : String) : Option ImportFinding :=
  if pkg = "" then none
  else (entryOf renames pkg).map fun entry => finding file lineIdx pkg entry language

def scanPythonLine (line : List Char) (renames : Renames) (file : String) (lineIdx : Nat) :
    List ImportFinding :=
  match RE_PY_IMPORT line with
  | none => []
  | some raw => (check renames file lineIdx .python (topLevelPythonPackage raw)).toList

/-- The specifiers in the order in which the patterns find them. -/
def jsMatches (line : List Char) : List (List Char) :=
  execAll RE_JS_IMPORT line ++ execAll RE_JS_DYNAMIC line ++ (RE_JS_SIDE_EFFECT line).toList

def scanJsLine (line : List Char) (renames : Renames) (file : String) (lineIdx : Nat) :
    List ImportFinding :=
  (jsMatches line).filterMap fun spec =>
    check renames file lineIdx .typescript (topLevelJsPackage spec)

/-! ### The engine -/

structure ImportLintEngine where
  pythonRenames : Renames
  typescriptRenames : Renames
  languages : List SourceLanguage := [.python, .typescript]

def isPython (relPath : String) : Bool := ".py".toList <:+ relPath.toList

/-- `/\.(?:[cm]?js|jsx|ts|tsx|mjs|cjs|mts|cts)$/` -/
def isScript (relPath : String) : Bool :=
  [".js", ".cjs", ".mjs", ".jsx", ".ts", ".tsx", ".mts", ".cts"].any fun suffix =>
    suffix.toList <:+ relPath.toList

namespace ImportLintEngine

variable (engine : ImportLintEngine)

def includeFilter (rel : String) : Bool :=
  if engine.languages.contains .python && isPython rel then true
  else if engine.languages.contains .typescript then isScript rel
  else false

/-- The findings in a file. -/
def scanFile (relPath content : String) : List ImportFinding :=
  (content.toList.splitOn '\n').zipIdx.flatMap fun (line, i) =>
    if isPython relPath then scanPythonLine line engine.pythonRenames relPath i
    else scanJsLine line engine.typescriptRenames relPath i

/-- The findings in a file that can be read. -/
def findingsIn (file : String × Option String) : List ImportFinding :=
  match file.2 with
  | none => []
  | some content => engine.scanFile file.1 content

structure Detail where
  file : String
  line : Nat
  rule : String
  oldName : String
  newName : Option String
  message : String

/-- How a template writes a value that may be `undefined`. -/
def shown (value : Option String) : String := value.getD "undefined"

def detail (f : ImportFinding) : Detail where
  file := f.file
  line := f.line
  rule := f.rule
  oldName := f.oldName
  newName := f.newName
  message := f.oldName ++ " is deprecated; use " ++ shown f.newName ++ ". " ++ shown f.reason

structure ImportReport where
  findings : Nat
  warnings : Nat
  info : Nat
  filesScanned : Nat
  details : List Detail

/-- The report on files of which each has a path and, if it can be read, a text. The status is
always that of a pass. -/
def emit (files : List (String × Option String)) : ImportReport :=
  let allFiles := files.filter fun file => engine.includeFilter file.1
  let findings := allFiles.flatMap engine.findingsIn
  { findings := findings.length
    warnings := (findings.filter (·.severity = .warning)).length
    info := (findings.filter (·.severity = .info)).length
    filesScanned := allFiles.length
    details := findings.map detail }

end ImportLintEngine

example : jsMatches "const m = await import('glob');".toList = ["glob".toList, "glob".toList] := by
  decide +kernel

end KirkForge.ImportLint
