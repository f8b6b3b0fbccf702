import KirkForge.Theory.NumberText
import Mathlib.Data.Int.Log
import Mathlib.Tactic.NormNum

/-!
# Doubles

The number that a decimal literal denotes in ECMAScript: the nearest IEEE 754 double, by the
shortest decimal fraction that is rounded to it. Literals from half a unit above the largest double
on denote an infinity, for which `2 ^ 1024` and `-2 ^ 1024` stand here.
-/

namespace KirkForge.JsNumber

/-- The nearest integer, and the even one in the middle between two. -/
def roundEven (y : ℚ) : ℤ :=
  if y - ⌊y⌋ < 1 / 2 ∨ y - ⌊y⌋ = 1 / 2 ∧ ⌊y⌋ % 2 = 0 then ⌊y⌋ else ⌊y⌋ + 1

/-- The place of the last of 53 binary digits, or of the last digit that there is. -/
def unitExponent (q : ℚ) : ℤ := max (Int.log 2 |q| - 52) (-1074)

/-- The nearest double, of any size. -/
def nearest (q : ℚ) : ℚ := roundEven (q / 2 ^ unitExponent q) * 2 ^ unitExponent q

/-- The fractions with as many decimal places below and above `x`, the nearer one first. -/
def neighbours (x : ℚ) (places : ℤ) : List ℚ :=
  let below := ⌊x * 10 ^ places⌋ / (10 : ℚ) ^ places
  let above := ⌈x * 10 ^ places⌉ / (10 : ℚ) ^ places
  if x - below ≤ above - x then [below, above] else [above, below]

/-- The fraction with the fewest digits that is rounded to the double `x`. No double needs more than
17 digits. -/
def shortest (x : ℚ) : ℚ :=
  let candidates := (List.range 17).flatMap fun i : Nat => neighbours x (i - Int.log 10 |x|)
  (candidates.find? fun r => nearest r = x).getD 0

def infinity : ℚ := 2 ^ 1024

/-- The number that a literal denotes. -/
def double (q : ℚ) : ℚ :=
  if infinity ≤ |nearest q| then (if q < 0 then -infinity else infinity) else shortest (nearest q)

/-- The number that is held in place of `q`. -/
def ofRead (q : ℚ) : JsNumber :=
  if infinity ≤ |q| then (if q < 0 then negInf else posInf) else finite q

example : double (1 / 10 + 1 / 10 ^ 18) = 1 / 10 ∧ double (2 ^ 53 + 1) = 2 ^ 53 ∧
    double (-1 / 10 ^ 400) = 0 ∧ double (10 ^ 400) = infinity := by
  decide +kernel

theorem mem_neighbours {x r : ℚ} {places : ℤ} (h : r ∈ neighbours x places) :
    ∃ s : ℤ, r = s / (10 : ℚ) ^ places := by
  simp only [neighbours] at h
  split at h <;>
  · simp only [List.mem_cons, List.not_mem_nil, or_false] at h
    rcases h with rfl | rfl
    · exact ⟨_, rfl⟩
    · exact ⟨_, rfl⟩

/-- The fraction is rounded to the double, if it is not zero. -/
theorem shortest_spec (x : ℚ) : shortest x = 0 ∨
    nearest (shortest x) = x ∧
      ∃ i : Nat, i < 17 ∧ shortest x ∈ neighbours x (i - Int.log 10 |x|) := by
  rw [shortest]
  cases hfind : ((List.range 17).flatMap fun i : Nat => neighbours x (i - Int.log 10 |x|)).find?
      fun r => nearest r = x with
  | none => exact .inl rfl
  | some r =>
    obtain ⟨i, hi, hr⟩ := List.mem_flatMap.mp (List.mem_of_find?_eq_some hfind)
    refine .inr ⟨?_, i, List.mem_range.mp hi, hr⟩
    simpa using List.find?_some hfind

/-- The least double is the unit of the last place. -/
theorem le_nearest {q : ℚ} (h : nearest q ≠ 0) : 1 / 2 ^ 1074 ≤ |nearest q| := by
  have hint : roundEven (q / 2 ^ unitExponent q) ≠ 0 := by
    intro hzero
    rw [nearest, hzero] at h
    exact h (by simp)
  have hone : (1 : ℚ) ≤ |(roundEven (q / 2 ^ unitExponent q) : ℚ)| := by
    exact_mod_cast Int.one_le_abs hint
  have hunit : (1 : ℚ) / 2 ^ 1074 ≤ 2 ^ unitExponent q :=
    calc (1 : ℚ) / 2 ^ 1074 = 2 ^ (-1074 : ℤ) := by rw [zpow_neg, one_div]; rfl
      _ ≤ 2 ^ unitExponent q := zpow_le_zpow_right₀ (by norm_num) (le_max_right _ _)
  have hpos : (0 : ℚ) < 2 ^ unitExponent q := zpow_pos (by norm_num) _
  rw [nearest, abs_mul, abs_of_pos hpos]
  exact hunit.trans (le_mul_of_one_le_left hpos.le hone)

/-- A fraction with few places. -/
theorem isDecimal_div_zpow (s : ℤ) {places : ℤ} (h : places < 400) :
    IsDecimal (s / (10 : ℚ) ^ places) := by
  have h10 : (10 : ℚ) ≠ 0 := by norm_num
  refine ⟨places.toNat, by omega, ?_⟩
  have hint : s / (10 : ℚ) ^ places * 10 ^ places.toNat = ((s * 10 ^ (-places).toNat : ℤ) : ℚ) := by
    have hpow : (10 : ℚ) ^ places.toNat = 10 ^ places * 10 ^ (-places).toNat := by
      rw [← zpow_natCast, ← zpow_natCast, ← zpow_add₀ h10]
      congr 1
      omega
    push_cast
    rw [hpow, ← mul_assoc, div_mul_cancel₀ _ (zpow_ne_zero _ h10)]
  rw [hint]
  exact Rat.den_intCast _

theorem isDecimal_shortest (q : ℚ) : IsDecimal (shortest (nearest q)) := by
  rcases shortest_spec (nearest q) with hzero | ⟨-, i, hi, hmem⟩
  · rw [hzero]
    exact isDecimal_natCast 0
  obtain ⟨s, hs⟩ := mem_neighbours hmem
  have hlog : -324 ≤ Int.log 10 |nearest q| := by
    by_cases hzero : nearest q = 0
    · rw [hzero, abs_zero, Int.log_zero_right]
      decide
    · have hleast : (10 : ℚ) ^ (-324 : ℤ) ≤ 1 / 2 ^ 1074 := by decide +kernel
      exact (Int.zpow_le_iff_le_log (by decide) (abs_pos.mpr hzero)).mp
        (hleast.trans (le_nearest hzero))
  rw [hs]
  exact isDecimal_div_zpow s (by omega)

theorem isDecimal_double (q : ℚ) : IsDecimal (double q) := by
  have hinf : IsDecimal infinity := by
    have h := isDecimal_natCast (2 ^ 1024)
    rwa [Nat.cast_pow] at h
  rw [double]
  split
  · split
    · obtain ⟨k, hk, hden⟩ := hinf
      exact ⟨k, hk, by rwa [neg_mul, Rat.den_neg_eq_den]⟩
    · exact hinf
  · exact isDecimal_shortest q

/-- What a literal denotes denotes itself. -/
theorem double_double (q : ℚ) : double (double q) = double q := by
  by_cases hlarge : infinity ≤ |nearest q|
  · have hinf : double infinity = infinity := by decide +kernel
    have hneg : double (-infinity) = -infinity := by decide +kernel
    have hdouble : double q = if q < 0 then -infinity else infinity := if_pos hlarge
    rw [hdouble]
    split
    · exact hneg
    · exact hinf
  · have hdouble : double q = shortest (nearest q) := if_neg hlarge
    rw [hdouble]
    rcases shortest_spec (nearest q) with hzero | ⟨hnearest, -⟩
    · rw [hzero]
      decide +kernel
    · rw [double, hnearest, if_neg hlarge]

end KirkForge.JsNumber
