import Mathlib.Algebra.Order.Ring.Int

/-!
# The protocol of a circuit breaker

A circuit counts failures while it is closed, opens at a threshold, and some time after its last
failure lets one request through as a probe. Until the outcome of the probe is known nothing else is
let through; it decides whether the circuit closes or opens again.
-/

namespace KirkForge.ProbeProtocol

inductive Phase
  | closed (failures : Nat)
  | opened (lastFailure : Int)
  | probing
  deriving DecidableEq

inductive Input
  | check (now : Int)
  | success
  | failure (now : Int)

/-- Whether a check is refused. -/
def Phase.blocks (resetTimeout now : Int) : Phase → Bool
  | closed _ => false
  | opened lastFailure => now - lastFailure ≤ resetTimeout
  | probing => true

def Phase.next (threshold : Nat) (resetTimeout : Int) : Phase → Input → Phase
  | _, .success => closed 0
  | closed failures, .failure now =>
    if threshold ≤ failures + 1 then opened now else closed (failures + 1)
  | _, .failure now => opened now
  | opened lastFailure, .check now =>
    if now - lastFailure ≤ resetTimeout then opened lastFailure else probing
  | phase, .check _ => phase

variable {threshold : Nat} {resetTimeout : Int}

/-- What the inputs since the last success were: how many failures, and when the last one was. -/
structure Tally where
  failures : Nat := 0
  lastFailure : Int := 0

def Tally.next (tally : Tally) : Input → Tally
  | .success => {}
  | .failure now => ⟨tally.failures + 1, now⟩
  | .check _ => tally

/-- The phase is that of a circuit with these failures since the last success. -/
def Fits (threshold : Nat) (tally : Tally) : Phase → Prop
  | .closed failures => tally.failures = failures ∧ (failures = 0 ∨ failures < threshold)
  | .opened lastFailure => threshold ≤ tally.failures ∧ tally.lastFailure = lastFailure
  | .probing => threshold ≤ tally.failures

theorem Fits.next {tally : Tally} {phase : Phase} (h : Fits threshold tally phase) (i : Input) :
    Fits threshold (tally.next i) (phase.next threshold resetTimeout i) := by
  cases i with
  | success => cases phase <;> exact ⟨rfl, .inl rfl⟩
  | failure now =>
    cases phase with
    | closed failures =>
      rw [Phase.next]
      split
      · next hge => exact ⟨hge.trans_eq (congrArg (· + 1) h.1.symm), rfl⟩
      · next hlt => exact ⟨congrArg (· + 1) h.1, .inr (Nat.lt_of_not_le hlt)⟩
    | opened lastFailure => exact ⟨Nat.le_succ_of_le h.1, rfl⟩
    | probing => exact ⟨Nat.le_succ_of_le h, rfl⟩
  | check now =>
    cases phase with
    | closed failures => exact h
    | opened lastFailure =>
      rw [Phase.next]
      split
      · exact h
      · exact h.1
    | probing => exact h

theorem Fits.foldl {tally : Tally} {phase : Phase} (h : Fits threshold tally phase)
    (inputs : List Input) : Fits threshold (inputs.foldl Tally.next tally)
      (inputs.foldl (Phase.next threshold resetTimeout) phase) := by
  induction inputs generalizing tally phase with
  | nil => exact h
  | cons i inputs ih => exact ih (h.next i)

theorem fits_closed : Fits threshold {} (.closed 0) := ⟨rfl, .inl rfl⟩

/-- After as many failures as the threshold without a success, every check is refused that comes
within the time of the last of them. -/
theorem Fits.blocks {tally : Tally} {phase : Phase} (h : Fits threshold tally phase)
    (hpos : 0 < tally.failures) (hmany : threshold ≤ tally.failures) {now : Int}
    (hnow : now - tally.lastFailure ≤ resetTimeout) : phase.blocks resetTimeout now = true := by
  cases phase with
  | closed failures =>
    obtain ⟨hfailures, hfew⟩ := h
    omega
  | opened lastFailure =>
    rw [h.2] at hnow
    exact decide_eq_true hnow
  | probing => rfl

end KirkForge.ProbeProtocol
