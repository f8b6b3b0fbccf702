import Mathlib.Data.Nat.Digits.Defs
import Mathlib.Data.Rat.Floor

/-!
# Numbers

The numbers of ECMAScript, a finite one by the shortest decimal fraction that denotes it; the two
infinities and NaN are values of their own. NaN is neither above nor below any number, and makes
every minimum NaN. The text of a number is its digits with a point or an exponent.
-/

namespace KirkForge

inductive JsNumber
  | finite (q : ℚ) | posInf | negInf | nan
  deriving DecidableEq, Repr

namespace JsNumber

instance : NatCast JsNumber := ⟨fun n => finite n⟩

instance (n : Nat) : OfNat JsNumber n := ⟨finite n⟩

theorem natCast_ne_nan (n : Nat) : (n : JsNumber) ≠ nan := fun h => nomatch (h : finite n = nan)

/-- `a <= b`. -/
def le : JsNumber → JsNumber → Bool
  | nan, _ | _, nan => false
  | negInf, _ | _, posInf => true
  | _, negInf | posInf, _ => false
  | finite a, finite b => a ≤ b

/-- `Math.min(a, b)`. -/
def min (a b : JsNumber) : JsNumber :=
  if a = nan ∨ b = nan then nan else if le a b then a else b

/-- `a > b`. -/
def gt (a b : JsNumber) : Bool := !le a b && a ≠ nan && b ≠ nan

/-- `a + b`, without rounding. -/
def add : JsNumber → JsNumber → JsNumber
  | nan, _ | _, nan | posInf, negInf | negInf, posInf => nan
  | posInf, _ | _, posInf => posInf
  | negInf, _ | _, negInf => negInf
  | finite a, finite b => finite (a + b)

instance : Add JsNumber := ⟨add⟩

theorem add_def (a b : JsNumber) : a + b = add a b := rfl

theorem finite_add (a b : ℚ) : finite a + finite b = finite (a + b) := rfl

/-- `-a` -/
def neg : JsNumber → JsNumber
  | finite a => finite (-a)
  | posInf => negInf
  | negInf => posInf
  | nan => nan

instance : Neg JsNumber := ⟨neg⟩

/-- `a - b`, without rounding. -/
instance : Sub JsNumber := ⟨fun a b => a + -b⟩

theorem finite_sub (a b : ℚ) : finite a - finite b = finite (a - b) :=
  congrArg finite (sub_eq_add_neg a b).symm

theorem finite_lt_iff {a b : ℚ} : gt (finite b) (finite a) = true ↔ a < b := by
  simp [gt, le]

theorem gt_natCast_mono {m n : Nat} {x : JsNumber} (h : gt m x = true) (hmn : m ≤ n) :
    gt n x = true := by
  cases x with
  | finite q => exact finite_lt_iff.mpr ((finite_lt_iff.mp h).trans_le (Nat.cast_le.mpr hmn))
  | negInf => rfl
  | posInf | nan => cases h

theorem zero_add (a : JsNumber) : 0 + a = a := by
  cases a with
  | finite q => exact congrArg finite (Rat.zero_add q)
  | _ => rfl

theorem add_zero (a : JsNumber) : a + 0 = a := by
  cases a with
  | finite q => exact congrArg finite (Rat.add_zero q)
  | _ => rfl

theorem add_assoc (a b c : JsNumber) : a + b + c = a + (b + c) := by
  cases a <;> cases b <;> cases c <;> simp [add_def, add, Rat.add_assoc]

/-- Whether the number counts as true in a condition. -/
def truthy (a : JsNumber) : Bool := a ≠ 0 && a ≠ nan

theorem le_refl {a : JsNumber} (h : a ≠ nan) : le a a = true := by
  cases a <;> simp [le] at h ⊢

theorem le_total {a b : JsNumber} (ha : a ≠ nan) (hb : b ≠ nan) :
    le a b = true ∨ le b a = true := by
  cases a <;> cases b <;> simp [le] at ha hb ⊢
  exact Rat.le_total

theorem not_nan_of_le {a b : JsNumber} (h : le a b = true) : a ≠ nan ∧ b ≠ nan := by
  cases a <;> cases b <;> simp [le] at h ⊢

/-- A minimum is a lower bound, except that NaN bounds nothing. -/
theorem min_le_left_iff {a b : JsNumber} : le (min a b) a = true ↔ a ≠ nan ∧ b ≠ nan := by
  rw [min]
  split
  · next h => simp [le, ← not_or, h]
  · next h =>
    rw [not_or] at h
    split
    · exact iff_of_true (le_refl h.1) h
    · next hab => exact iff_of_true ((le_total h.1 h.2).resolve_left hab) h

/-- Between numbers other than NaN, not being above is being at most. -/
theorem gt_eq_not_le {a b : JsNumber} (ha : a ≠ nan) (hb : b ≠ nan) : gt a b = !le a b := by
  simp [gt, ha, hb]

/-! ### The text of a number -/

/-- The decimal digits of a positive number. -/
def digitChars (n : Nat) : List Char := (Nat.digits 10 n).reverse.map Nat.digitChar

/-- The decimal places of a decimal fraction. No number has more than 341 of them. -/
def decimalPlaces (q : ℚ) : Nat := ((List.range 400).find? fun k => (q * 10 ^ k).den = 1).getD 0

/-- Digits with the decimal point after the first `n` of them. -/
def layout (digits : List Char) (n : Int) : List Char :=
  let k := digits.length
  if k ≤ n ∧ n ≤ 21 then digits ++ List.replicate (n - k).toNat '0'
  else if 0 < n ∧ n ≤ 21 then digits.take n.toNat ++ '.' :: digits.drop n.toNat
  else if -6 < n ∧ n ≤ 0 then '0' :: '.' :: (List.replicate (-n).toNat '0' ++ digits)
  else
    digits.take 1 ++ (if k = 1 then [] else '.' :: digits.drop 1) ++
      'e' :: (if n < 1 then '-' else '+') :: digitChars (n - 1).natAbs

/-- The characters of a finite number. -/
def finiteChars (q : ℚ) : List Char :=
  if q = 0 then ['0']
  else
    let places := decimalPlaces q
    let all := digitChars (q * 10 ^ places).num.natAbs
    let digits := (all.reverse.dropWhile (· = '0')).reverse
    (if q < 0 then ['-'] else []) ++ layout digits (all.length - places)

/-- `String(x)`. -/
def text : JsNumber → String
  | finite q => String.ofList (finiteChars q)
  | posInf => "Infinity"
  | negInf => "-Infinity"
  | nan => "NaN"

example : text (finite (-1250 / 10000)) = "-0.125" ∧ text 1200 = "1200" ∧
    text (finite (15 * 10 ^ 21)) = "1.5e+22" ∧ text (finite (1 / 10 ^ 7)) = "1e-7" := by
  decide +kernel

/-- The characters that a finite number is written with. -/
def numberChars : List Char := "0123456789.e+-".toList

theorem digitChars_subset (n : Nat) : ∀ c ∈ digitChars n, c ∈ numberChars := by
  intro c hc
  obtain ⟨d, hd, rfl⟩ := List.mem_map.mp hc
  have hlt : d < 10 := Nat.digits_lt_base (by decide) (List.mem_reverse.mp hd)
  have hall : ∀ d < 10, Nat.digitChar d ∈ numberChars := by decide
  exact hall d hlt

theorem layout_subset {digits : List Char} (h : ∀ c ∈ digits, c ∈ numberChars) (n : Int) :
    ∀ c ∈ layout digits n, c ∈ numberChars := by
  have hzero (k : Nat) : ∀ c ∈ List.replicate k '0', c ∈ numberChars := fun c hc => by
    rw [List.eq_of_mem_replicate hc]; decide
  have hpoint : '.' ∈ numberChars := by decide
  have hexp : 'e' ∈ numberChars := by decide
  have hnull : '0' ∈ numberChars := by decide
  have htake (k : Nat) : ∀ c ∈ digits.take k, c ∈ numberChars := fun c hc =>
    h c (List.mem_of_mem_take hc)
  have hdrop (k : Nat) : ∀ c ∈ digits.drop k, c ∈ numberChars := fun c hc =>
    h c (List.mem_of_mem_drop hc)
  simp only [layout]
  split
  · exact List.forall_mem_append.mpr ⟨h, hzero _⟩
  split
  · exact List.forall_mem_append.mpr ⟨htake _, List.forall_mem_cons.mpr ⟨hpoint, hdrop _⟩⟩
  split
  · exact List.forall_mem_cons.mpr ⟨hnull, List.forall_mem_cons.mpr ⟨hpoint,
      List.forall_mem_append.mpr ⟨hzero _, h⟩⟩⟩
  · refine List.forall_mem_append.mpr ⟨List.forall_mem_append.mpr ⟨htake 1, ?_⟩, ?_⟩
    · split
      · exact List.forall_mem_nil _
      · exact List.forall_mem_cons.mpr ⟨hpoint, hdrop 1⟩
    · refine List.forall_mem_cons.mpr ⟨hexp, List.forall_mem_cons.mpr ⟨?_, digitChars_subset _⟩⟩
      split <;> decide

theorem finiteChars_subset (q : ℚ) : ∀ c ∈ finiteChars q, c ∈ numberChars := by
  have hminus : '-' ∈ numberChars := by decide
  have hnull : '0' ∈ numberChars := by decide
  unfold finiteChars
  split
  · exact List.forall_mem_singleton.mpr hnull
  · refine List.forall_mem_append.mpr ⟨?_, layout_subset ?_ _⟩
    · split
      · exact List.forall_mem_singleton.mpr hminus
      · exact List.forall_mem_nil _
    · intro c hc
      have hc := (List.dropWhile_sublist _).subset (List.mem_reverse.mp hc)
      exact digitChars_subset _ c (List.mem_reverse.mp hc)

end JsNumber

end KirkForge

/-!
## Room below a limit

How far a counter may grow before it reaches a limit, where both may be infinite or NaN. Two
counters with their limits behave alike, whatever is added to them, exactly if they have the same
room (`reaches_eq_iff`).
-/

namespace KirkForge.JsNumber

inductive Headroom
  /-- The limit is reached once as much as this is added. -/
  | finite (q : ℚ)
  /-- Infinity reaches the limit, and nothing else does. -/
  | infinite
  /-- The limit is reached. -/
  | none
  /-- The counter is infinite: the limit is reached unless minus infinity is added. -/
  | exceeded
  /-- The counter is minus infinity, and so is the limit. -/
  | depleted
  /-- The limit is never reached. -/
  | unlimited
  deriving DecidableEq, Repr

/-- The room that a counter has below a limit. -/
def headroom (counter limit : JsNumber) : Headroom :=
  match counter, limit with
  | nan, _ | _, nan => .unlimited
  | finite q, finite l => .finite (l - q)
  | finite _, posInf => .infinite
  | finite _, negInf => .none
  | posInf, _ => .exceeded
  | negInf, negInf => .depleted
  | negInf, _ => .unlimited

/-- The limit is reached when `delta` is added. -/
def Headroom.reached : Headroom → JsNumber → Bool
  | .unlimited, _ | _, nan => false
  | finite q, delta => le (.finite q) delta
  | .infinite, delta => delta = posInf
  | .none, _ => true
  | exceeded, delta => delta ≠ negInf
  | depleted, delta => delta ≠ posInf

theorem le_add (counter limit delta : JsNumber) :
    le limit (counter + delta) = (headroom counter limit).reached delta := by
  cases counter <;> cases limit <;> cases delta <;>
    simp [headroom, Headroom.reached, add_def, add, le, add_comm]

/-- A finite room is told from every other one by what is just enough and what is not. -/
theorem Headroom.eq_of_reached_finite {q : ℚ} {r : Headroom}
    (h : (finite q).reached = r.reached) : finite q = r := by
  have henough := congrFun h (.finite q)
  have hless := congrFun h (.finite (q - 1))
  have hpos := congrFun h posInf
  have hmore : (finite q).reached (.finite (q - 1)) = false :=
    decide_eq_false (not_le.mpr (sub_one_lt q))
  cases r with
  | finite q' =>
    have henough' := congrFun h (.finite q')
    simp only [reached, le, Rat.le_refl, decide_true] at henough henough'
    rw [Rat.le_antisymm (of_decide_eq_true henough') (of_decide_eq_true henough.symm)]
  | none => cases hmore.symm.trans hless
  | infinite => simp [reached, le] at henough
  | exceeded => cases hmore.symm.trans hless
  | depleted => simp [reached, le] at hpos
  | unlimited => simp [reached, le] at hpos

theorem Headroom.reached_injective : Function.Injective Headroom.reached := by
  intro r r' h
  have hpos := congrFun h posInf
  have hneg := congrFun h negInf
  have hzero := congrFun h 0
  cases r with
  | finite q => exact eq_of_reached_finite h
  | _ =>
    cases r' with
    | finite q => exact (eq_of_reached_finite h.symm).symm
    | _ => simp_all [reached]

/-- Nothing that is added tells counters with the same room apart. -/
theorem reaches_eq_iff {counter limit counter' limit' : JsNumber} :
    (∀ delta, le limit (counter + delta) = le limit' (counter' + delta)) ↔
      headroom counter limit = headroom counter' limit' := by
  simp only [le_add]
  exact ⟨fun h => Headroom.reached_injective (funext h), fun h delta => by rw [h]⟩

/-- Counters with the same room still have it when the same is added to both. -/
theorem headroom_add {counter limit counter' limit' : JsNumber}
    (h : headroom counter limit = headroom counter' limit') (delta : JsNumber) :
    headroom (counter + delta) limit = headroom (counter' + delta) limit' := by
  rw [← reaches_eq_iff] at h ⊢
  intro delta'
  rw [add_assoc, add_assoc, h]

end KirkForge.JsNumber
