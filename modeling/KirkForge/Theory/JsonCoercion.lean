import KirkForge.Theory.JsonRead

/-!
# JSON values as operands

What `value > 0` and `value + 1` make of a value that `JSON.parse` may return. An array or an object
is an operand by its text, and has none if some object has a member `toString`: the operator throws.
For a value whose numbers are doubles (`JsonRead`) there are conditions, template literals and the
comparison with a number.
-/

namespace KirkForge

namespace JsNumber

/-- Digits of a radix, one at least. -/
def ofRadix (radix : Nat) (cs : List Char) : JsNumber :=
  let value := cs.foldlM (fun n c => (Json.hexDigit c).bind fun d =>
    if d < radix then some (radix * n + d) else none) 0
  match value with
  | some n => if cs = [] then nan else (n : JsNumber)
  | none => nan

/-- A decimal literal without a sign. -/
def ofDecimal (cs : List Char) : JsNumber :=
  let whole := cs.takeWhile Char.isDigit
  let rest := cs.dropWhile Char.isDigit
  let frac := if rest.head? = some '.' then rest.tail.takeWhile Char.isDigit else []
  let rest := if rest.head? = some '.' then rest.tail.dropWhile Char.isDigit else rest
  if whole ++ frac = [] then nan
  else
    match Json.exponent rest with
    | some (exp, []) =>
      finite (Json.natOfDigits (whole ++ frac) / 10 ^ frac.length * (10 : ℚ) ^ exp)
    | _ => nan

/-- `Number(text)`, without rounding. -/
def ofText (text : String) : JsNumber :=
  match (Text.trim text).toList with
  | [] => 0
  | '0' :: 'x' :: cs | '0' :: 'X' :: cs => ofRadix 16 cs
  | '0' :: 'o' :: cs | '0' :: 'O' :: cs => ofRadix 8 cs
  | '0' :: 'b' :: cs | '0' :: 'B' :: cs => ofRadix 2 cs
  | '+' :: cs => unsigned cs
  | '-' :: cs => -unsigned cs
  | cs => unsigned cs
where
  unsigned (cs : List Char) : JsNumber :=
    if cs = "Infinity".toList then posInf else ofDecimal cs

/-- `a > 0` for the double nearest to `a`: half of the least positive double is rounded to zero. -/
def positive : JsNumber → Bool
  | finite q => (1 : ℚ) / 2 ^ 1075 < q
  | posInf => true
  | negInf | nan => false

end JsNumber

namespace Json

/-- `String(value)` -/
def text : Json → Option String := toText fun q => (JsNumber.finite q).text

/-- The operand of a comparison with a number; `none` when the conversion throws. -/
def toNumber : Json → Option JsNumber
  | null => some 0
  | bool b => some (if b then 1 else 0)
  | num q => some (.finite q)
  | value => value.text.map JsNumber.ofText

/-- `value + 1`; `none` when it throws. -/
def addOne : Json → Option Json
  | null => some (num 1)
  | bool b => some (num (if b then 2 else 1))
  | num q => some (num (q + 1))
  | value => value.text.map fun t => str (t ++ "1")

example : (toNumber (str " 0x1F\n"), toNumber (arr [arr [num 2]]), addOne (arr [])) =
    (some 31, some 2, some (str "1")) := by decide +kernel

end Json

/-! ### Values that were read -/

/-- The double that is nearest. -/
def JsNumber.rounded : JsNumber → JsNumber
  | finite q => ofRead (double q)
  | x => x

namespace Json

/-- Whether the value counts as true in a condition. -/
def truthy : Json → Bool
  | null => false
  | bool b => b
  | num q => q ≠ 0
  | str s => s ≠ ""
  | arr _ | obj _ => true

/-- What stands in a template literal for the value. -/
def literal : Json → Option String := toText fun q => (JsNumber.ofRead q).text

/-- The operand of a comparison with a number. -/
def operand : Json → Option JsNumber
  | null => some 0
  | bool b => some (if b then 1 else 0)
  | num q => some (JsNumber.ofRead q)
  | value => value.literal.map fun t => (JsNumber.ofText t).rounded

example : (operand (str "1e400"), operand (arr [str "0x10"]), operand (obj []),
    operand (obj [("toString", null)])) = (some .posInf, some 16, some .nan, none) := by
  decide +kernel

/-- A number is true unless it is zero. -/
theorem truthy_ofRead (q : ℚ) : (JsNumber.ofRead q).truthy = (num q).truthy := by
  have hpos : (0 : ℚ) < JsNumber.infinity := by norm_num [JsNumber.infinity]
  rw [JsNumber.ofRead, truthy]
  split
  · next hlarge =>
    have hne : q ≠ 0 := by
      rintro rfl
      rw [abs_zero] at hlarge
      exact absurd hpos (not_lt.mpr hlarge)
    rw [decide_eq_true hne]
    split <;> rfl
  · have hzero : JsNumber.finite q = 0 ↔ q = 0 := by
      rw [show (0 : JsNumber) = .finite ((0 : Nat) : ℚ) from rfl, JsNumber.finite.injEq,
        Nat.cast_zero]
    simp [JsNumber.truthy, hzero]

end Json

end KirkForge
