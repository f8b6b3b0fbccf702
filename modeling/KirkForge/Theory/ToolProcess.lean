import Mathlib.Data.List.Basic

/-!
# Processes of external tools

How a process that `execFile` runs may end, and what its callback is told. A process has succeeded
if it has exited with code 0; every other end comes with an error.
-/

namespace KirkForge

inductive Ending
  | exited (code : Nat)
  /-- Ended by a signal, such as the one that is sent after a time-out. -/
  | killed (signal : String)
  /-- Not started, or stopped by the caller for writing too much. -/
  | failed (message : String)
  deriving DecidableEq, Repr

structure ToolProcess where
  ending : Ending
  stdout : String
  stderr : String
  deriving DecidableEq, Repr

namespace ToolProcess

def Succeeded (p : ToolProcess) : Prop := p.ending = .exited 0

instance (p : ToolProcess) : Decidable p.Succeeded := inferInstanceAs (Decidable (_ = _))

/-- The process has written nothing. -/
def Silent (p : ToolProcess) : Prop := p.stdout = "" ∧ p.stderr = ""

instance (p : ToolProcess) : Decidable p.Silent := inferInstanceAs (Decidable (_ ∧ _))

/-- The message of the error that the callback of `execFile` gets. -/
def error (command : String) (p : ToolProcess) : Option String :=
  match p.ending with
  | .exited 0 => none
  | .failed message => some message
  | .exited _ | .killed _ => some ("Command failed: " ++ command ++ "\n" ++ p.stderr)

variable {p : ToolProcess} {command : String}

theorem error_eq_none_iff : p.error command = none ↔ p.Succeeded := by
  rw [error, Succeeded]
  cases p.ending with
  | exited code =>
    cases code with
    | zero => exact iff_of_true rfl rfl
    | succ code => exact iff_of_false nofun nofun
  | killed signal => exact iff_of_false nofun nofun
  | failed message => exact iff_of_false nofun nofun

/-- The promise that is rejected on an error only if the process has written nothing, and that is
resolved with the output otherwise. -/
def output (command : String) (p : ToolProcess) : Except String (String × String) :=
  match p.error command with
  | some message => if p.Silent then .error message else .ok (p.stdout, p.stderr)
  | none => .ok (p.stdout, p.stderr)

/-- All that is kept of the end of a process is whether it failed in silence. -/
theorem output_cases (command : String) (p : ToolProcess) :
    p.output command = .ok (p.stdout, p.stderr) ∧ (p.Silent → p.Succeeded) ∨
      (∃ message, p.output command = .error message) ∧ p.Silent ∧ ¬p.Succeeded := by
  rw [output, ← error_eq_none_iff]
  cases p.error command with
  | none => exact .inl ⟨rfl, fun _ => rfl⟩
  | some message =>
    by_cases hsilent : p.Silent
    · exact .inr ⟨⟨message, if_pos hsilent⟩, hsilent, nofun⟩
    · exact .inl ⟨if_neg hsilent, fun h => absurd h hsilent⟩

end ToolProcess

end KirkForge
