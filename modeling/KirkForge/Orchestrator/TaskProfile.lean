import KirkForge.CorrectionCore.Types
import KirkForge.Theory.Scanning

/-!
# Task profiles

`orchestrator/src/task-profile.ts`: the profile of each task language and the detection of the
language from the task description.
-/

namespace KirkForge

structure StructuredCheckCommand where
  command : String
  args : List String
  appendFiles : Option Bool := none
  deriving DecidableEq, Repr

structure WritePolicy where
  allowOverwrite : Option Bool := none
  denyPaths : Option (List String) := none
  deriving DecidableEq, Repr

structure TaskProfile where
  language : TaskLanguage
  checkCommand : String
  structuredCheck : Option StructuredCheckCommand := none
  allowedExtensions : List String
  forbiddenExtensions : List String
  verifierPolicy : VerifierPolicy
  validatorRequired : Option Bool := none
  writePolicy : Option WritePolicy := none
  deriving DecidableEq, Repr

/-- The policy of the languages without a required verifier. -/
def advisoryPolicy : VerifierPolicy :=
  { required := [], advisory := [.lint, .types, .security, .graph] }

/-- The table `PROFILES`. -/
def profileForLanguage : TaskLanguage → TaskProfile
  | .typescript => {
      language := .typescript
      checkCommand := "npx tsc --noEmit"
      structuredCheck := some {
        command := "npx", args := ["tsc", "--noEmit"], appendFiles := some false }
      allowedExtensions := [".ts", ".tsx", ".json", ".css", ".html", ".txt"]
      forbiddenExtensions := [".py", ".rs", ".go", ".sh"]
      verifierPolicy := { required := [.lint, .types, .security], advisory := [.graph] } }
  | .javascript => {
      language := .javascript
      checkCommand := "node --check"
      structuredCheck := some {
        command := "node", args := ["--check"], appendFiles := some true }
      allowedExtensions := [".js", ".jsx", ".json", ".css", ".html", ".txt"]
      forbiddenExtensions := [".py", ".rs", ".go"]
      verifierPolicy := { required := [.lint, .security], advisory := [.types, .graph] } }
  | .python => {
      language := .python
      checkCommand := "python3 -m py_compile"
      structuredCheck := some {
        command := "python3", args := ["-m", "py_compile"], appendFiles := some true }
      allowedExtensions := [".py", ".txt", ".toml", ".cfg"]
      forbiddenExtensions := [".ts", ".tsx", ".js", ".jsx", ".d.ts"]
      verifierPolicy := { required := [.lint, .types], advisory := [.security, .graph] } }
  | .shell => {
      language := .shell
      validatorRequired := some true
      checkCommand := "bash -n"
      structuredCheck := some { command := "bash", args := ["-n"], appendFiles := some true }
      allowedExtensions := [".sh", ".bash", ".txt"]
      forbiddenExtensions := [".ts", ".tsx", ".js", ".py", ".rs"]
      verifierPolicy := { required := [.security, .lint], advisory := [.types, .graph] } }
  | .cpp => {
      language := .cpp
      validatorRequired := some true
      checkCommand := "g++ -fsyntax-only"
      structuredCheck := some {
        command := "g++", args := ["-fsyntax-only"], appendFiles := some true }
      allowedExtensions := [".cpp", ".cc", ".cxx", ".h", ".hpp", ".txt"]
      forbiddenExtensions := [".ts", ".tsx", ".py"]
      verifierPolicy := advisoryPolicy }
  | .c => {
      language := .c
      validatorRequired := some true
      checkCommand := "gcc -fsyntax-only"
      structuredCheck := some {
        command := "gcc", args := ["-fsyntax-only"], appendFiles := some true }
      allowedExtensions := [".c", ".h", ".txt"]
      forbiddenExtensions := [".ts", ".tsx", ".py"]
      verifierPolicy := advisoryPolicy }
  | .rust => {
      language := .rust
      validatorRequired := some true
      checkCommand := "rustc --emit=metadata"
      structuredCheck := some {
        command := "rustc", args := ["--emit=metadata"], appendFiles := some true }
      allowedExtensions := [".rs", ".toml", ".txt"]
      forbiddenExtensions := [".ts", ".tsx", ".py"]
      verifierPolicy := advisoryPolicy }
  | .go => {
      language := .go
      validatorRequired := some true
      checkCommand := "go vet ./..."
      structuredCheck := some {
        command := "go", args := ["vet", "./..."], appendFiles := some false }
      allowedExtensions := [".go", ".mod", ".sum", ".txt"]
      forbiddenExtensions := [".ts", ".tsx", ".py"]
      verifierPolicy := advisoryPolicy }
  | .sql => {
      language := .sql
      validatorRequired := some true
      checkCommand := ""
      allowedExtensions := [".sql", ".txt"]
      forbiddenExtensions := [".ts", ".tsx", ".py"]
      verifierPolicy := advisoryPolicy }
  | .text => {
      language := .text
      validatorRequired := some true
      checkCommand := ""
      allowedExtensions := [".txt", ".md"]
      forbiddenExtensions := [".ts", ".tsx", ".js", ".jsx", ".py", ".rs", ".go", ".sh", ".bash",
        ".exe", ".dll", ".so", ".json", ".csv", ".yaml", ".yml", ".toml", ".xml", ".html", ".css"]
      verifierPolicy := advisoryPolicy
      writePolicy := some { allowOverwrite := some false } }

/-- The table `RULES`; each pattern stands between two word boundaries and ignores case. -/
def rules : List (TaskLanguage × List Pattern) := [
  (.python,
    ["python", "py_compile", "pytest", "pandas", "flask", "django", "cython", "pip",
      "requirements.txt", "csv", "parquet", "jupyter", "notebook", "classifier"].map
        Pattern.literal ++
    [Pattern.literal "debug" ++ [.anyStar] ++ Pattern.literal "program"] ++
    ["broken-python", "vul-flask"].map Pattern.literal),
  (.shell,
    ["bash", "shell", "sh script", "script", "bucket", "aws", "s3", "cron", "unix", "linux",
      "command line", "cli command", "create-bucket"].map Pattern.literal),
  (.cpp, ["c++", "cpp", "g++", "clang++", "cmake", "cpp-compatibility"].map Pattern.literal),
  (.c,
    ["gcc", "clang", "makefile"].map Pattern.literal ++
    [Pattern.literal ".c" ++ [.boundary], Pattern.literal "c program"]),
  (.rust, ["rust", "cargo", "rustc"].map Pattern.literal),
  (.go, ["golang", "go test", "go.mod"].map Pattern.literal),
  (.sql,
    ["sql", "sqlite", "postgres", "query", "database", "simple-sql-query"].map Pattern.literal),
  (.javascript,
    [Pattern.literal "javascript",
      Pattern.literal "node" ++ [.optional '.'] ++ Pattern.literal "js"] ++
    ["node --check", ".js", "jsx"].map Pattern.literal),
  (.typescript,
    [Pattern.literal "typescript", [.boundary] ++ Pattern.literal "ts" ++ [.boundary]] ++
    ["tsc", ".ts", "tsx", "web scraper", "form-filling", "server endpoint", "endpoint"].map
      Pattern.literal)]

def detectTaskProfile (description : String) : TaskProfile :=
  match rules.find? fun rule => Pattern.search rule.2 description with
  | some rule => profileForLanguage rule.1
  | none => profileForLanguage .text

example : (detectTaskProfile "Fix the Node.js endpoint").language = .javascript := by
  decide +kernel

end KirkForge
