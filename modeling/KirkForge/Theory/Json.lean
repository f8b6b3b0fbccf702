import KirkForge.Theory.OrderedMap
import Mathlib.Data.List.TakeWhile
import Mathlib.Data.Rat.Defs

/-!
# JSON

JSON values and `JSON.parse`, by recursive descent on characters. A number is read exactly, not
rounded. A key that is repeated keeps its place and takes its last value. An unpaired surrogate
escape is read as U+FFFD, which is what it becomes when the string is encoded in UTF-8. The parser
has fuel, of which twice the length of the text is enough (`value_eq_of_lt`).
-/

namespace KirkForge

inductive Json
  | null
  | bool (value : Bool)
  | num (value : ℚ)
  | str (value : String)
  | arr (items : List Json)
  | obj (fields : List (String × Json))

namespace Json

/-- The field of an object. -/
def get? (key : String) : Json → Option Json
  | obj fields => OrderedMap.lookup key fields
  | _ => none

def str? : Json → Option String
  | str s => some s
  | _ => none

mutual
/-- `String(value)`, given how numbers are written. An object with a field `toString` has no
string: the field is not a function, and the conversion throws. -/
def toText (number : ℚ → String) : Json → Option String
  | null => some "null"
  | bool b => some (if b then "true" else "false")
  | num q => some (number q)
  | str s => some s
  | arr items => (itemTexts number items).map fun texts => ",".intercalate texts
  | obj fields =>
    match OrderedMap.lookup "toString" fields with
    | some _ => none
    | none => some "[object Object]"

/-- The texts that `join` puts together: `null` gives the empty one. -/
def itemTexts (number : ℚ → String) : List Json → Option (List String)
  | [] => some []
  | null :: items => (itemTexts number items).map ("" :: ·)
  | item :: items => (toText number item).bind fun t => (itemTexts number items).map (t :: ·)
end

mutual
def decEq : (x y : Json) → Decidable (x = y)
  | null, y => match y with
    | null => isTrue rfl
    | bool _ | num _ | str _ | arr _ | obj _ => isFalse nofun
  | bool a, y => match y with
    | bool b => decidable_of_iff (a = b) (by rw [bool.injEq])
    | null | num _ | str _ | arr _ | obj _ => isFalse nofun
  | num a, y => match y with
    | num b => decidable_of_iff (a = b) (by rw [num.injEq])
    | null | bool _ | str _ | arr _ | obj _ => isFalse nofun
  | str a, y => match y with
    | str b => decidable_of_iff (a = b) (by rw [str.injEq])
    | null | bool _ | num _ | arr _ | obj _ => isFalse nofun
  | arr xs, y => match y with
    | arr ys => @decidable_of_iff _ (xs = ys) (by rw [arr.injEq]) (decEqItems xs ys)
    | null | bool _ | num _ | str _ | obj _ => isFalse nofun
  | obj xs, y => match y with
    | obj ys => @decidable_of_iff _ (xs = ys) (by rw [obj.injEq]) (decEqFields xs ys)
    | null | bool _ | num _ | str _ | arr _ => isFalse nofun

def decEqItems : (xs ys : List Json) → Decidable (xs = ys)
  | [], [] => isTrue rfl
  | x :: xs, y :: ys =>
    @decidable_of_iff _ (x = y ∧ xs = ys) (by rw [List.cons.injEq])
      (@instDecidableAnd _ _ (decEq x y) (decEqItems xs ys))
  | [], _ :: _ | _ :: _, [] => isFalse nofun

def decEqFields : (xs ys : List (String × Json)) → Decidable (xs = ys)
  | [], [] => isTrue rfl
  | (k, x) :: xs, (l, y) :: ys =>
    @decidable_of_iff _ (k = l ∧ x = y ∧ xs = ys)
      (by rw [List.cons.injEq, Prod.mk.injEq, and_assoc])
      (@instDecidableAnd _ _ _ (@instDecidableAnd _ _ (decEq x y) (decEqFields xs ys)))
  | [], _ :: _ | _ :: _, [] => isFalse nofun
end

instance : DecidableEq Json := decEq

/-! ### Scanning -/

def isSpace (c : Char) : Bool := c = ' ' || c = '\t' || c = '\n' || c = '\r'

def skipSpace (cs : List Char) : List Char := cs.dropWhile isSpace

/-- The rest after the character `c`, which white space may precede. -/
def token (c : Char) (cs : List Char) : Option (List Char) :=
  match skipSpace cs with
  | [] => none
  | c' :: rest => if c' = c then some rest else none

def hexDigit (c : Char) : Option Nat :=
  if '0' ≤ c ∧ c ≤ '9' then some (c.toNat - '0'.toNat)
  else if 'a' ≤ c ∧ c ≤ 'f' then some (c.toNat - 'a'.toNat + 10)
  else if 'A' ≤ c ∧ c ≤ 'F' then some (c.toNat - 'A'.toNat + 10)
  else none

def hexDigits (cs : List Char) : Option Nat :=
  cs.foldlM (fun n c => (hexDigit c).map (16 * n + ·)) 0

/-- The character that a one-letter escape stands for. -/
def escape (c : Char) : Option Nat :=
  if c = '"' ∨ c = '\\' ∨ c = '/' then some c.toNat
  else if c = 'b' then some 0x08
  else if c = 'f' then some 0x0C
  else if c = 'n' then some 0x0A
  else if c = 'r' then some 0x0D
  else if c = 't' then some 0x09
  else none

/-- The rest of a string literal: its code points and unpaired surrogates, and what follows it. -/
def units : List Char → Option (List Nat × List Char)
  | [] => none
  | c :: cs =>
    if c = '"' then some ([], cs)
    else if c = '\\' then
      match cs with
      | 'u' :: a :: b :: c :: d :: cs =>
        (hexDigits [a, b, c, d]).bind fun n => (units cs).map fun r => (n :: r.1, r.2)
      | e :: cs => (escape e).bind fun n => (units cs).map fun r => (n :: r.1, r.2)
      | [] => none
    else if c.toNat < 0x20 then none
    else (units cs).map fun r => (c.toNat :: r.1, r.2)

def isHigh (n : Nat) : Bool := 0xD800 ≤ n && n < 0xDC00

def isLow (n : Nat) : Bool := 0xDC00 ≤ n && n < 0xE000

/-- Put surrogate pairs together. -/
def chars : List Nat → List Char
  | [] => []
  | [n] => [if isHigh n || isLow n then '\uFFFD' else Char.ofNat n]
  | n :: m :: rest =>
    if isHigh n && isLow m then
      Char.ofNat (0x10000 + (n - 0xD800) * 0x400 + (m - 0xDC00)) :: chars rest
    else (if isHigh n || isLow n then '\uFFFD' else Char.ofNat n) :: chars (m :: rest)

/-- A string literal, after its opening quote. -/
def string (cs : List Char) : Option (String × List Char) :=
  (units cs).map fun r => (String.ofList (chars r.1), r.2)

def natOfDigits (ds : List Char) : Nat := ds.foldl (fun n c => 10 * n + (c.toNat - '0'.toNat)) 0

/-- One digit at least. -/
def digits (cs : List Char) : Option (List Char × List Char) :=
  if cs.takeWhile Char.isDigit = [] then none
  else some (cs.takeWhile Char.isDigit, cs.dropWhile Char.isDigit)

/-- Whether there is a minus sign, and what follows it. -/
def minus : List Char → Bool × List Char
  | '-' :: cs => (true, cs)
  | cs => (false, cs)

/-- The digits after a decimal point, if there is one. -/
def fraction : List Char → Option (List Char × List Char)
  | '.' :: cs => digits cs
  | cs => some ([], cs)

/-- The exponent, if there is one. -/
def exponent : List Char → Option (Int × List Char)
  | [] => some (0, [])
  | c :: cs =>
    if c = 'e' ∨ c = 'E' then
      let unsigned := if cs.head? = some '+' then cs.tail else (minus cs).2
      (digits unsigned).map fun r =>
        (if (minus cs).1 then -natOfDigits r.1 else natOfDigits r.1, r.2)
    else some (0, c :: cs)

/-- A number; a leading zero stands alone. -/
def number (cs : List Char) : Option (ℚ × List Char) :=
  (digits (minus cs).2).bind fun whole =>
    if whole.1.head? = some '0' ∧ whole.1.length ≠ 1 then none
    else
      (fraction whole.2).bind fun frac =>
        (exponent frac.2).map fun exp =>
          let mantissa : ℚ := natOfDigits (whole.1 ++ frac.1) / 10 ^ frac.1.length
          let scaled := if 0 ≤ exp.1 then mantissa * 10 ^ exp.1.toNat
            else mantissa / 10 ^ (-exp.1).toNat
          (if (minus cs).1 then -scaled else scaled, exp.2)

/-- A literal or a number. -/
def scalar : List Char → Option (Json × List Char)
  | 't' :: 'r' :: 'u' :: 'e' :: cs => some (bool true, cs)
  | 'f' :: 'a' :: 'l' :: 's' :: 'e' :: cs => some (bool false, cs)
  | 'n' :: 'u' :: 'l' :: 'l' :: cs => some (null, cs)
  | cs => (number cs).map fun r => (num r.1, r.2)

/-! ### Parsing -/

mutual
def value : Nat → List Char → Option (Json × List Char)
  | 0, _ => none
  | fuel + 1, cs =>
    match skipSpace cs with
    | [] => none
    | c :: rest =>
      if c = '{' then
        match token '}' rest with
        | some rest => some (obj [], rest)
        | none => members fuel [] rest
      else if c = '[' then
        match token ']' rest with
        | some rest => some (arr [], rest)
        | none => elements fuel [] rest
      else if c = '"' then (string rest).map fun r => (str r.1, r.2)
      else scalar (c :: rest)

/-- The members of an object, after those in `fields`. -/
def members : Nat → List (String × Json) → List Char → Option (Json × List Char)
  | 0, _, _ => none
  | fuel + 1, fields, cs =>
    (token '"' cs).bind fun cs =>
    (string cs).bind fun key =>
    (token ':' key.2).bind fun cs =>
    (value fuel cs).bind fun v =>
      let fields := OrderedMap.insert key.1 v.1 fields
      match token ',' v.2 with
      | some cs => members fuel fields cs
      | none => (token '}' v.2).map fun rest => (obj fields, rest)

/-- The elements of an array, after those in `items`. -/
def elements : Nat → List Json → List Char → Option (Json × List Char)
  | 0, _, _ => none
  | fuel + 1, items, cs =>
    (value fuel cs).bind fun v =>
      let items := items ++ [v.1]
      match token ',' v.2 with
      | some cs => elements fuel items cs
      | none => (token ']' v.2).map fun rest => (arr items, rest)
end

/-- `JSON.parse(text)`; `none` when it throws. -/
def parse (text : String) : Option Json :=
  (value (2 * text.toList.length + 1) text.toList).bind fun r =>
    if skipSpace r.2 = [] then some r.1 else none

example : ((parse r#" {"a": [1, -2.5e1], "a": "\u0041\n"} "#).bind (get? "a")).bind str? =
    some "A\n" := by decide +kernel

/-! ### Fuel -/

theorem length_skipSpace_le (cs : List Char) : (skipSpace cs).length ≤ cs.length :=
  (List.dropWhile_suffix _).length_le

theorem token_length {c : Char} {cs rest : List Char} (h : token c cs = some rest) :
    rest.length < cs.length := by
  rw [token] at h
  split at h
  · cases h
  next c' rest' hs =>
  have hle := length_skipSpace_le cs
  rw [hs, List.length_cons] at hle
  split at h <;> cases h
  omega

theorem units_length {cs : List Char} {r : List Nat × List Char} (h : units cs = some r) :
    r.2.length < cs.length := by
  fun_induction units cs generalizing r with
  | case1 => cases h
  | case2 cs => cases h; exact Nat.lt_succ_self _
  | case3 a b c d cs _ ih =>
    obtain ⟨_, -, h⟩ := Option.bind_eq_some_iff.mp h
    obtain ⟨r, hr, rfl⟩ := Option.map_eq_some_iff.mp h
    have := ih hr
    simp only [List.length_cons]
    omega
  | case4 e cs _ _ ih =>
    obtain ⟨_, -, h⟩ := Option.bind_eq_some_iff.mp h
    obtain ⟨r, hr, rfl⟩ := Option.map_eq_some_iff.mp h
    have := ih hr
    simp only [List.length_cons]
    omega
  | case5 => cases h
  | case6 => cases h
  | case7 c cs _ _ _ ih =>
    obtain ⟨r', hr, rfl⟩ := Option.map_eq_some_iff.mp h
    have := ih hr
    simp only [List.length_cons]
    omega

theorem string_length {cs : List Char} {r : String × List Char} (h : string cs = some r) :
    r.2.length < cs.length := by
  obtain ⟨r, hr, rfl⟩ := Option.map_eq_some_iff.mp h
  exact units_length hr

theorem digits_length {cs : List Char} {r : List Char × List Char} (h : digits cs = some r) :
    r.2.length ≤ cs.length := by
  rw [digits] at h
  split at h <;> cases h
  exact (List.dropWhile_suffix _).length_le

theorem length_minus_le (cs : List Char) : (minus cs).2.length ≤ cs.length := by
  rw [minus.eq_def]
  split <;> simp

theorem fraction_length {cs : List Char} {r : List Char × List Char} (h : fraction cs = some r) :
    r.2.length ≤ cs.length := by
  rw [fraction.eq_def] at h
  split at h
  · exact Nat.le_succ_of_le (digits_length h)
  · cases h; exact Nat.le_refl _

theorem exponent_length {cs : List Char} {r : Int × List Char} (h : exponent cs = some r) :
    r.2.length ≤ cs.length := by
  rw [exponent.eq_def] at h
  split at h
  · cases h; exact Nat.le_refl _
  next c cs =>
  split at h
  · obtain ⟨r, hr, rfl⟩ := Option.map_eq_some_iff.mp h
    refine (digits_length hr).trans (Nat.le_succ_of_le ?_)
    split
    · exact List.length_tail ▸ Nat.sub_le ..
    · exact length_minus_le cs
  · cases h; exact Nat.le_refl _

/-- A number has a whole part, a fraction and an exponent, one after the other. -/
theorem number_parts {cs : List Char} {r : ℚ × List Char} (h : number cs = some r) :
    ∃ whole frac exp, digits (minus cs).2 = some whole ∧ fraction whole.2 = some frac ∧
      exponent frac.2 = some exp ∧ r.2 = exp.2 := by
  obtain ⟨whole, hwhole, h⟩ := Option.bind_eq_some_iff.mp h
  split at h
  · cases h
  obtain ⟨frac, hfrac, h⟩ := Option.bind_eq_some_iff.mp h
  obtain ⟨exp, hexp, rfl⟩ := Option.map_eq_some_iff.mp h
  exact ⟨whole, frac, exp, hwhole, hfrac, hexp, rfl⟩

theorem number_length {cs : List Char} {r : ℚ × List Char} (h : number cs = some r) :
    r.2.length ≤ cs.length := by
  obtain ⟨whole, frac, exp, hwhole, hfrac, hexp, hrest⟩ := number_parts h
  rw [hrest]
  exact (exponent_length hexp).trans ((fraction_length hfrac).trans
    ((digits_length hwhole).trans (length_minus_le cs)))

theorem scalar_length {cs : List Char} {r : Json × List Char} (h : scalar cs = some r) :
    r.2.length ≤ cs.length := by
  rw [scalar.eq_def] at h
  split at h
  · cases h; simp only [List.length_cons]; omega
  · cases h; simp only [List.length_cons]; omega
  · cases h; simp only [List.length_cons]; omega
  · obtain ⟨r, hr, rfl⟩ := Option.map_eq_some_iff.mp h
    exact number_length hr

/-- What is parsed is not put back. -/
theorem value_length (fuel : Nat) :
    (∀ cs r, value fuel cs = some r → r.2.length ≤ cs.length) ∧
    (∀ fields cs r, members fuel fields cs = some r → r.2.length ≤ cs.length) ∧
    (∀ items cs r, elements fuel items cs = some r → r.2.length ≤ cs.length) := by
  induction fuel with
  | zero => exact ⟨nofun, nofun, nofun⟩
  | succ fuel ih =>
    obtain ⟨hvalue, hmembers, helements⟩ := ih
    refine ⟨fun cs r h => ?_, fun fields cs r h => ?_, fun items cs r h => ?_⟩
    · rw [value] at h
      have hle := length_skipSpace_le cs
      split at h
      · cases h
      next c rest hs =>
      rw [hs, List.length_cons] at hle
      split_ifs at h
      · split at h
        · next ht => cases h; have := token_length ht; dsimp only; omega
        · have := hmembers _ _ _ h; omega
      · split at h
        · next ht => cases h; have := token_length ht; dsimp only; omega
        · have := helements _ _ _ h; omega
      · obtain ⟨s, hs, rfl⟩ := Option.map_eq_some_iff.mp h
        have := string_length hs
        dsimp only
        omega
      · have := scalar_length h
        rw [List.length_cons] at this
        omega
    · rw [members] at h
      obtain ⟨cs₁, h₁, h⟩ := Option.bind_eq_some_iff.mp h
      obtain ⟨key, h₂, h⟩ := Option.bind_eq_some_iff.mp h
      obtain ⟨cs₃, h₃, h⟩ := Option.bind_eq_some_iff.mp h
      obtain ⟨v, h₄, h⟩ := Option.bind_eq_some_iff.mp h
      have := token_length h₁
      have := string_length h₂
      have := token_length h₃
      have := hvalue _ _ h₄
      dsimp only at h
      split at h
      · next h₅ =>
        have := token_length h₅
        have := hmembers _ _ _ h
        omega
      · obtain ⟨rest, h₅, rfl⟩ := Option.map_eq_some_iff.mp h
        have := token_length h₅
        dsimp only
        omega
    · rw [elements] at h
      obtain ⟨v, h₁, h⟩ := Option.bind_eq_some_iff.mp h
      have := hvalue _ _ h₁
      dsimp only at h
      split at h
      · next h₂ =>
        have := token_length h₂
        have := helements _ _ _ h
        omega
      · obtain ⟨rest, h₂, rfl⟩ := Option.map_eq_some_iff.mp h
        have := token_length h₂
        dsimp only
        omega

/-- Fuel beyond twice the length of the text changes nothing. -/
theorem value_stable (fuel : Nat) :
    (∀ cs, 2 * cs.length < fuel → value fuel cs = value (fuel + 1) cs) ∧
    (∀ fields cs, 2 * cs.length + 1 < fuel →
      members fuel fields cs = members (fuel + 1) fields cs) ∧
    (∀ items cs, 2 * cs.length + 1 < fuel →
      elements fuel items cs = elements (fuel + 1) items cs) := by
  induction fuel with
  | zero => exact ⟨nofun, nofun, nofun⟩
  | succ fuel ih =>
    obtain ⟨hvalue, hmembers, helements⟩ := ih
    refine ⟨fun cs hlen => ?_, fun fields cs hlen => ?_, fun items cs hlen => ?_⟩
    · rw [value, value]
      have hle := length_skipSpace_le cs
      split
      · rfl
      next c rest hs =>
      rw [hs, List.length_cons] at hle
      rw [hmembers [] rest (by omega), helements [] rest (by omega)]
    · rw [members, members]
      refine Option.bind_congr fun cs₁ h₁ => Option.bind_congr fun key h₂ =>
        Option.bind_congr fun cs₃ h₃ => ?_
      have := token_length h₁
      have := string_length h₂
      have := token_length h₃
      rw [← hvalue cs₃ (by omega)]
      refine Option.bind_congr fun v h₄ => ?_
      have := (value_length fuel).1 _ _ h₄
      dsimp only
      split
      · next h₅ =>
        have := token_length h₅
        exact hmembers _ _ (by omega)
      · rfl
    · rw [elements, elements, ← hvalue cs (by omega)]
      refine Option.bind_congr fun v h₁ => ?_
      have := (value_length fuel).1 _ _ h₁
      dsimp only
      split
      · next h₂ =>
        have := token_length h₂
        exact helements _ _ (by omega)
      · rfl

/-- Any fuel beyond twice the length of the text is as good. -/
theorem value_eq_of_lt {cs : List Char} {fuel : Nat} (h : 2 * cs.length < fuel) :
    value fuel cs = value (2 * cs.length + 1) cs := by
  induction fuel, Nat.succ_le_of_lt h using Nat.le_induction with
  | base => rfl
  | succ fuel hle ih => rw [← (value_stable fuel).1 cs hle, ih hle]

/-! ### Objects -/

theorem scalar_ne_obj {cs : List Char} {r : Json × List Char} (h : scalar cs = some r)
    (fields : List (String × Json)) : r.1 ≠ obj fields := by
  rw [scalar.eq_def] at h
  split at h
  · cases h; nofun
  · cases h; nofun
  · cases h; nofun
  · obtain ⟨r, -, rfl⟩ := Option.map_eq_some_iff.mp h; nofun

theorem members_eq_obj {fuel : Nat} {fields : List (String × Json)} {cs : List Char}
    {r : Json × List Char} (h : members fuel fields cs = some r) : ∃ fields, r.1 = obj fields := by
  induction fuel generalizing fields cs with
  | zero => cases h
  | succ fuel ih =>
    rw [members] at h
    obtain ⟨_, -, h⟩ := Option.bind_eq_some_iff.mp h
    obtain ⟨_, -, h⟩ := Option.bind_eq_some_iff.mp h
    obtain ⟨_, -, h⟩ := Option.bind_eq_some_iff.mp h
    obtain ⟨_, -, h⟩ := Option.bind_eq_some_iff.mp h
    dsimp only at h
    split at h
    · exact ih h
    · obtain ⟨_, -, rfl⟩ := Option.map_eq_some_iff.mp h
      exact ⟨_, rfl⟩

theorem elements_eq_arr {fuel : Nat} {items : List Json} {cs : List Char} {r : Json × List Char}
    (h : elements fuel items cs = some r) : ∃ items, r.1 = arr items := by
  induction fuel generalizing items cs with
  | zero => cases h
  | succ fuel ih =>
    rw [elements] at h
    obtain ⟨_, -, h⟩ := Option.bind_eq_some_iff.mp h
    dsimp only at h
    split at h
    · exact ih h
    · obtain ⟨_, -, rfl⟩ := Option.map_eq_some_iff.mp h
      exact ⟨_, rfl⟩

/-- A text is an object when it begins like one. -/
theorem parse_eq_obj_iff {text : String} {j : Json} (h : parse text = some j) :
    (∃ fields, j = obj fields) ↔ (skipSpace text.toList).head? = some '{' := by
  obtain ⟨r, hr, h⟩ := Option.bind_eq_some_iff.mp h
  split at h <;> cases h
  rw [value] at hr
  split at hr
  · cases hr
  next c rest hs =>
  rw [hs, List.head?_cons, Option.some.injEq]
  split_ifs at hr with hbrace hbracket hquote
  · refine iff_of_true ?_ hbrace
    split at hr
    · cases hr; exact ⟨[], rfl⟩
    · exact members_eq_obj hr
  · refine iff_of_false ?_ hbrace
    rintro ⟨fields, hf⟩
    split at hr
    · cases hr; cases hf
    · obtain ⟨items, hitems⟩ := elements_eq_arr hr
      cases hf.symm.trans hitems
  · refine iff_of_false ?_ hbrace
    rintro ⟨fields, hf⟩
    obtain ⟨s, -, rfl⟩ := Option.map_eq_some_iff.mp hr
    cases hf
  · exact iff_of_false (fun ⟨fields, hf⟩ => scalar_ne_obj hr fields hf) hbrace

end Json

end KirkForge

/-!
## Texts that are no JSON

A text without quotes, brackets and braces is read as one literal or number. Neither has a colon, so
such a text with a colon is no JSON.
-/

namespace KirkForge.Json

theorem colon_mem_digits {cs : List Char} {r : List Char × List Char} (h : digits cs = some r)
    (hcolon : ':' ∈ cs) : ':' ∈ r.2 := by
  rw [digits] at h
  split at h <;> cases h
  rw [← List.takeWhile_append_dropWhile (p := Char.isDigit) (l := cs)] at hcolon
  refine (List.mem_append.mp hcolon).resolve_left fun hdigit => ?_
  exact absurd (List.mem_takeWhile_imp hdigit) (by decide)

theorem colon_mem_minus {cs : List Char} (hcolon : ':' ∈ cs) : ':' ∈ (minus cs).2 := by
  rw [minus.eq_def]
  split
  · exact List.mem_of_ne_of_mem (by decide) hcolon
  · exact hcolon

theorem colon_mem_fraction {cs : List Char} {r : List Char × List Char} (h : fraction cs = some r)
    (hcolon : ':' ∈ cs) : ':' ∈ r.2 := by
  rw [fraction.eq_def] at h
  split at h
  · exact colon_mem_digits h (List.mem_of_ne_of_mem (by decide) hcolon)
  · cases h
    exact hcolon

theorem colon_mem_exponent {cs : List Char} {r : Int × List Char} (h : exponent cs = some r)
    (hcolon : ':' ∈ cs) : ':' ∈ r.2 := by
  rw [exponent.eq_def] at h
  split at h
  · cases hcolon
  next c cs =>
  split at h
  · next he =>
    have hcs : ':' ∈ cs := List.mem_of_ne_of_mem (by rintro rfl; revert he; decide) hcolon
    obtain ⟨r, hr, rfl⟩ := Option.map_eq_some_iff.mp h
    refine colon_mem_digits hr ?_
    split
    · next hplus =>
      cases cs with
      | nil => cases hcs
      | cons c cs =>
        rw [List.head?_cons, Option.some.injEq] at hplus
        exact List.mem_of_ne_of_mem (by rintro rfl; cases hplus) hcs
    · exact colon_mem_minus hcs
  · cases h
    exact hcolon

theorem colon_mem_number {cs : List Char} {r : ℚ × List Char} (h : number cs = some r)
    (hcolon : ':' ∈ cs) : ':' ∈ r.2 := by
  obtain ⟨whole, frac, exp, hwhole, hfrac, hexp, hrest⟩ := number_parts h
  rw [hrest]
  exact colon_mem_exponent hexp
    (colon_mem_fraction hfrac (colon_mem_digits hwhole (colon_mem_minus hcolon)))

theorem colon_mem_scalar {cs : List Char} {r : Json × List Char} (h : scalar cs = some r)
    (hcolon : ':' ∈ cs) : ':' ∈ r.2 := by
  rw [scalar.eq_def] at h
  split at h
  · cases h; simpa using hcolon
  · cases h; simpa using hcolon
  · cases h; simpa using hcolon
  · obtain ⟨r, hr, rfl⟩ := Option.map_eq_some_iff.mp h
    exact colon_mem_number hr hcolon

/-- Whether the character neither opens a value of several parts nor separates tokens. -/
def isPlain (c : Char) : Bool := c ≠ '{' && c ≠ '[' && c ≠ '"' && !isSpace c

theorem value_plain {fuel : Nat} {c : Char} {cs : List Char} (hc : isPlain c = true) :
    value (fuel + 1) (c :: cs) = scalar (c :: cs) := by
  simp only [isPlain, Bool.and_eq_true, decide_eq_true_eq, Bool.not_eq_true'] at hc
  obtain ⟨⟨⟨hbrace, hbracket⟩, hquote⟩, hspace⟩ := hc
  have hskip : skipSpace (c :: cs) = c :: cs := List.dropWhile_cons_of_neg (by simp [hspace])
  simp only [value, hskip, if_neg hbrace, if_neg hbracket, if_neg hquote]

theorem parse_plain_colon {text : String} (hplain : ∀ c ∈ text.toList, isPlain c = true)
    (hcolon : ':' ∈ text.toList) : parse text = none := by
  rw [parse]
  generalize text.toList = cs at hplain hcolon
  cases cs with
  | nil => cases hcolon
  | cons c cs =>
    rw [value_plain (hplain c (.head _))]
    cases hscalar : scalar (c :: cs) with
    | none => rfl
    | some r =>
      have hrest : ':' ∈ r.2 := colon_mem_scalar hscalar hcolon
      have hskip : skipSpace r.2 ≠ [] := by
        intro hnil
        rw [skipSpace, List.dropWhile_eq_nil_iff] at hnil
        exact absurd (hnil ':' hrest) (by decide)
      rw [Option.bind_some, if_neg hskip]

end KirkForge.Json
