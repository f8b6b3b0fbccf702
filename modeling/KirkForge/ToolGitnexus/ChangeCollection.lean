import KirkForge.CoreTypes.Events
import KirkForge.Theory.JoinPath
import KirkForge.Theory.Text

/-!
# Change collection

`GitnexusEmitter` (`tool-gitnexus/src/index.ts`) counts the changed files of a directory. Inside a
git repository it counts what git reports and adds the written files that git leaves out; outside it
counts the written files alone.
-/

namespace KirkForge.Gitnexus

structure WorkingTree where
  cwd : String
  /-- The output of a git command, or `none` when it fails. -/
  execFile : List String → Option String
  readFile : String → Option String

variable (tree : WorkingTree)

def git (args : List String) : String :=
  match tree.execFile args with
  | some stdout => Text.trim stdout
  | none => ""

def gitRepoExists : Bool :=
  match tree.execFile ["rev-parse", "--git-dir"] with
  | some stdout => Text.trim stdout ≠ ""
  | none => false

def countLines (filePath : String) : Nat :=
  match tree.readFile filePath with
  | none => 0
  | some content =>
    if content = "" then 0
    else
      let lines := Text.split '\n' content
      if lines.getLast? = some "" then lines.length - 1 else lines.length

/-- The number of a match of `/(\d+)\s+word/` at the front. -/
def countAt (word : String) (cs : List Char) : Option Nat :=
  let digits := cs.takeWhile Char.isDigit
  let rest := cs.dropWhile Char.isDigit
  let after := rest.dropWhile Text.isWhitespace
  if digits ≠ [] ∧ rest.length ≠ after.length ∧ word.toList.isPrefixOf after then
    some (digits.foldl (fun n c => 10 * n + (c.toNat - '0'.toNat)) 0)
  else none

/-- The number of the first match. -/
def countBefore (word : String) : List Char → Option Nat
  | [] => none
  | c :: cs => (countAt word (c :: cs)).or (countBefore word cs)

example : countBefore "insertions" " 3 files changed, 12 insertions(+)".toList = some 12 := by
  decide

/-- The commit that the tree is compared with, or the empty tree before the first one. -/
def ref : String :=
  if git tree ["rev-parse", "--verify", "HEAD"] ≠ "" then "HEAD"
  else "4b825dc642cb6eb9a060e54bf899d153036e3e7a"

def pathLines (output : String) : List String := (Text.split '\n' output).filter (· ≠ "")

def trackedPaths : List String := pathLines (git tree ["diff", ref tree, "--name-only"])

def untrackedPaths : List String :=
  pathLines (git tree ["ls-files", "--others", "--exclude-standard"])

/-- The value of the event that `emit` sends. -/
def stateChanges (writtenFiles : List String) : StateChangesValue :=
  let lineCount (paths : List String) : Nat :=
    (paths.map fun rel => countLines tree (Path.join tree.cwd rel)).sum
  if gitRepoExists tree then
    let tracked := trackedPaths tree
    let untracked := untrackedPaths tree
    let writtenNotInGit := writtenFiles.filter fun wf => wf ∉ tracked ∧ wf ∉ untracked
    let allPaths := (tracked ++ untracked ++ writtenNotInGit).eraseDups
    let stat := (git tree ["diff", ref tree, "--shortstat"]).toList
    { filesChanged := allPaths.length
      paths := allPaths
      insertions := (countBefore "insertions" stat).getD 0 + lineCount untracked +
        lineCount writtenNotInGit
      deletions := (countBefore "deletions" stat).getD 0 }
  else
    { filesChanged := writtenFiles.length
      paths := writtenFiles
      insertions := lineCount writtenFiles
      deletions := 0 }

/-- git reports a change of the directory. -/
def Dirty : Prop := gitRepoExists tree = true ∧ (trackedPaths tree ≠ [] ∨ untrackedPaths tree ≠ [])

variable {tree}

theorem length_eraseDups_eq_zero_iff {l : List String} : l.eraseDups.length = 0 ↔ l = [] := by
  cases l with
  | nil => exact iff_of_true rfl rfl
  | cons a l => simp [List.eraseDups_cons]

/-- Without a written file there is a change only if git reports one. -/
theorem filesChanged_eq_zero_iff : (stateChanges tree []).filesChanged = 0 ↔ ¬Dirty tree := by
  rw [stateChanges, Dirty]
  by_cases hrepo : gitRepoExists tree = true
  · rw [if_pos hrepo]
    show (List.eraseDups _).length = 0 ↔ _
    rw [length_eraseDups_eq_zero_iff]
    simp [hrepo]
  · rw [if_neg hrepo]
    exact iff_of_true rfl fun h => hrepo h.1

end KirkForge.Gitnexus
