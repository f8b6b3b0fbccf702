import KirkForge.Theory.JsonStrings

/-!
# How long a JSON text is

Of the texts of a value none is shorter than the one that `JSON.stringify` writes, if only
characters are counted that are no part of a number (`weight_read`). A part of that text which
leaves out such a character is therefore read as another value (`read_ne_of_mass_lt`).
-/

namespace KirkForge.Json

/-! ### Mass -/

/-- Characters that are neither a digit, a decimal or hexadecimal one, nor a sign nor a point. -/
def isHeavy (c : Char) : Bool := (hexDigit c).isNone && c ∉ ['+', '-', '.']

def mass (cs : List Char) : Nat := cs.countP isHeavy

@[simp] theorem mass_append (cs ds : List Char) : mass (cs ++ ds) = mass cs + mass ds :=
  List.countP_append

theorem mass_cons (c : Char) (cs : List Char) : mass (c :: cs) = mass [c] + mass cs :=
  mass_append [c] cs

theorem mass_le_of_isInfix {cs ds : List Char} (h : cs <:+: ds) : mass cs ≤ mass ds :=
  h.sublist.countP_le

theorem mass_singleton_le (c : Char) : mass [c] ≤ 1 := List.countP_le_length

/-! ### Weight -/

mutual
/-- The mass of what `JSON.stringify` writes. -/
def weight : Json → Nat
  | null => mass "null".toList
  | bool true => mass "true".toList
  | bool false => mass "false".toList
  | num _ => 0
  | str s => mass (JsValue.quote s)
  | arr items => 2 + (itemsWeight items - 1)
  | obj fields => 2 + (fieldsWeight fields - 1)

/-- With what separates them from what follows. -/
def itemsWeight : List Json → Nat
  | [] => 0
  | j :: items => weight j + 1 + itemsWeight items

def fieldsWeight : List (String × Json) → Nat
  | [] => 0
  | (k, j) :: fields => mass (JsValue.quote k) + 1 + weight j + 1 + fieldsWeight fields
end

theorem mass_finiteChars (q : ℚ) : mass (JsNumber.finiteChars q) = 0 := by
  have hall : ∀ c ∈ JsNumber.numberChars, isHeavy c = false :=
    Text.forall_mem_of_all (by decide)
  refine List.countP_eq_zero.mpr fun c hc => ?_
  rw [hall c (JsNumber.finiteChars_subset q c hc)]
  exact Bool.false_ne_true

theorem mass_commaJoin (texts : List (List Char)) :
    mass (Delimited.commaJoin texts) = (texts.map fun t => mass t + 1).sum - 1 := by
  induction texts with
  | nil => rfl
  | cons t texts ih =>
    cases texts with
    | nil => simp [Delimited.commaJoin]
    | cons u texts =>
      have hcomma : mass [','] = 1 := by decide
      rw [Delimited.commaJoin_cons_cons, mass_append, mass_cons, ih, hcomma]
      simp only [List.map_cons, List.sum_cons]
      omega

mutual
theorem mass_stringify (j : Json) : mass (JsValue.stringify j) = weight j := by
  cases j with
  | num q =>
    rw [JsValue.stringify, JsNumber.text, String.toList_ofList, weight]
    exact mass_finiteChars q
  | arr items =>
    have hbrackets : mass ['['] = 1 ∧ mass [']'] = 1 := by decide
    rw [JsValue.stringify, weight, List.cons_append, mass_cons, mass_append, mass_commaJoin,
      sum_stringifyItems items, hbrackets.1, hbrackets.2]
    omega
  | obj fields =>
    have hbraces : mass ['\x7b'] = 1 ∧ mass ['\x7d'] = 1 := by decide
    rw [JsValue.stringify, weight, List.cons_append, mass_cons, mass_append, mass_commaJoin,
      sum_stringifyFields fields, hbraces.1, hbraces.2]
    omega
  | bool b => cases b <;> rfl
  | null | str s => rfl

theorem sum_stringifyItems (items : List Json) :
    ((JsValue.stringifyItems items).map fun t => mass t + 1).sum = itemsWeight items := by
  cases items with
  | nil => rfl
  | cons j items =>
    rw [JsValue.stringifyItems, List.map_cons, List.sum_cons, itemsWeight, mass_stringify j,
      sum_stringifyItems items]

theorem sum_stringifyFields (fields : List (String × Json)) :
    ((JsValue.stringifyFields fields).map fun t => mass t + 1).sum = fieldsWeight fields := by
  cases fields with
  | nil => rfl
  | cons e fields =>
    obtain ⟨k, j⟩ := e
    have hcolon : mass [':'] = 1 := by decide
    rw [JsValue.stringifyFields, List.map_cons, List.sum_cons, fieldsWeight, mass_append, mass_cons,
      hcolon, mass_stringify j, sum_stringifyFields fields]
    omega
end

/-! ### Strings -/

theorem mass_quoteChar_le (c : Char) : mass (JsValue.quoteChar c) ≤ 2 := by
  have hdigit : ∀ d < 16, mass [Nat.digitChar d] = 0 := by decide
  unfold JsValue.quoteChar
  split
  · exact List.countP_le_length
  split_ifs
  · decide
  · decide
  · decide
  · decide
  · decide
  · rw [mass_append, mass_append, hdigit _ (by omega), hdigit _ (by omega)]
    decide
  · exact (mass_singleton_le c).trans (by decide)

/-- The mass of a code unit, of which some are put together. -/
def unitMass (n : Nat) : Nat :=
  if isHigh n || isLow n then 1 else mass (JsValue.quoteChar (Char.ofNat n))

theorem mass_chars_le (ns : List Nat) :
    mass ((chars ns).flatMap JsValue.quoteChar) ≤ (ns.map unitMass).sum := by
  have hone (n : Nat) : mass (JsValue.quoteChar
      (if isHigh n || isLow n then '\uFFFD' else Char.ofNat n)) ≤ unitMass n := by
    rw [unitMass]
    split
    · decide
    · exact Nat.le_refl _
  induction ns using chars.induct with
  | case1 => exact Nat.le_refl _
  | case2 n =>
    rw [chars]
    simpa using hone n
  | case3 n m rest hpair ih =>
    have hlow := mass_quoteChar_le (Char.ofNat (0x10000 + (n - 0xD800) * 0x400 + (m - 0xDC00)))
    obtain ⟨hn, hm⟩ := Bool.and_eq_true_iff.mp hpair
    have hunits : unitMass n = 1 ∧ unitMass m = 1 := by simp [unitMass, hn, hm]
    rw [chars, if_pos hpair, List.flatMap_cons, mass_append, List.map_cons, List.map_cons,
      List.sum_cons, List.sum_cons, hunits.1, hunits.2]
    omega
  | case4 n m rest hpair ih =>
    have hfirst := hone n
    rw [chars, if_neg hpair, List.flatMap_cons, mass_append, List.map_cons, List.sum_cons]
    omega

/-- No escape is shorter than how the character is written. -/
theorem unitMass_escape {e : Char} {n : Nat} (h : escape e = some n) :
    unitMass n ≤ mass ['\\', e] := by
  rw [escape] at h
  split_ifs at h with h₁ h₂ h₃ h₄ h₅ h₆
  · cases h
    rcases h₁ with rfl | rfl | rfl <;> decide
  all_goals
    cases h
    subst e
    decide

theorem mass_units {cs rest : List Char} {ns : List Nat} (h : units cs = some (ns, rest)) :
    1 + mass rest + (ns.map unitMass).sum ≤ mass cs := by
  have hslash : mass ['\\'] = 1 ∧ mass ['u'] = 1 ∧ mass ['"'] = 1 := by decide
  fun_induction units cs generalizing ns rest with
  | case1 => cases h
  | case2 cs =>
    cases h
    rw [mass_cons, hslash.2.2, List.map_nil, List.sum_nil]
    omega
  | case3 a b c d cs _ ih =>
    obtain ⟨n, -, h⟩ := Option.bind_eq_some_iff.mp h
    obtain ⟨⟨ms, rest'⟩, hread, heq⟩ := Option.map_eq_some_iff.mp h
    cases heq
    have hlater := ih hread
    have hunit : unitMass n ≤ 2 := by
      rw [unitMass]
      split
      · decide
      · exact mass_quoteChar_le _
    have hdigits : mass cs ≤ mass (a :: b :: c :: d :: cs) :=
      mass_le_of_isInfix (List.suffix_append [a, b, c, d] cs).isInfix
    rw [mass_cons, mass_cons 'u', hslash.1, hslash.2.1, List.map_cons, List.sum_cons]
    dsimp only
    omega
  | case4 e cs hu _ ih =>
    obtain ⟨n, hn, h⟩ := Option.bind_eq_some_iff.mp h
    obtain ⟨⟨ms, rest'⟩, hread, heq⟩ := Option.map_eq_some_iff.mp h
    cases heq
    have hlater := ih hread
    have hunit := unitMass_escape hn
    rw [mass_cons] at hunit
    rw [mass_cons, mass_cons e, List.map_cons, List.sum_cons]
    dsimp only
    omega
  | case5 => cases h
  | case6 => cases h
  | case7 c cs hquote hescape hlow ih =>
    obtain ⟨⟨ms, rest'⟩, hread, heq⟩ := Option.map_eq_some_iff.mp h
    cases heq
    have hlater := ih hread
    have hplain : JsValue.quoteChar c = [c] := by
      unfold JsValue.quoteChar
      rw [if_neg (not_or.mpr ⟨hquote, hescape⟩)]
      repeat rw [if_neg (by omega)]
    have hunit : unitMass c.toNat = mass [c] := by
      obtain ⟨hhigh, hlow⟩ := isHigh_isLow_toNat c
      simp [unitMass, hhigh, hlow, Char.ofNat_toNat, hplain]
    rw [mass_cons, List.map_cons, List.sum_cons]
    dsimp only
    omega

theorem mass_string {cs rest : List Char} {s : String} (h : string cs = some (s, rest)) :
    mass (JsValue.quote s) + mass rest ≤ 1 + mass cs := by
  obtain ⟨⟨ns, rest'⟩, hread, heq⟩ := Option.map_eq_some_iff.mp h
  cases heq
  have hunits := mass_units hread
  have hchars := mass_chars_le ns
  have hquote : mass ['"'] = 1 := by decide
  rw [JsValue.quote, String.toList_ofList, List.cons_append, mass_cons, mass_append, hquote]
  dsimp only at hunits ⊢
  omega

/-! ### Values -/

theorem mass_token {c : Char} (hc : isHeavy c = true) {cs rest : List Char}
    (h : token c cs = some rest) : mass rest + 1 ≤ mass cs := by
  rw [token] at h
  split at h
  · cases h
  · next c' rest' hspace =>
    split at h
    · next heq =>
      cases h
      have hle := mass_le_of_isInfix (List.dropWhile_suffix (l := cs) isSpace).isInfix
      rw [← skipSpace, hspace, heq, mass_cons] at hle
      have hone : mass [c] = 1 := by simp [mass, hc]
      omega
    · cases h

theorem weight_scalar {cs rest : List Char} {j : Json} (h : scalar cs = some (j, rest)) :
    weight j + mass rest ≤ mass cs := by
  rw [scalar.eq_def] at h
  split at h
  · cases h
    exact (mass_append "true".toList rest).ge
  · cases h
    exact (mass_append "false".toList rest).ge
  · cases h
    exact (mass_append "null".toList rest).ge
  · obtain ⟨⟨q, rest'⟩, hnumber, heq⟩ := Option.map_eq_some_iff.mp h
    cases heq
    obtain ⟨front, rfl, -⟩ := follows_number hnumber
    rw [weight, mass_append]
    omega

theorem fieldsWeight_insert (fields : List (String × Json)) (k : String) (j : Json) :
    1 ≤ fieldsWeight (OrderedMap.insert k j fields) ∧
      fieldsWeight (OrderedMap.insert k j fields) ≤
        fieldsWeight fields + (mass (JsValue.quote k) + 1 + weight j + 1) := by
  induction fields with
  | nil =>
    simp only [OrderedMap.insert, fieldsWeight]
    omega
  | cons e fields ih =>
    obtain ⟨k', j'⟩ := e
    rw [OrderedMap.insert]
    split
    · rw [fieldsWeight, fieldsWeight]
      omega
    · rw [fieldsWeight, fieldsWeight]
      omega

theorem itemsWeight_append (items : List Json) (j : Json) :
    itemsWeight (items ++ [j]) = itemsWeight items + (weight j + 1) := by
  induction items with
  | nil => simp [itemsWeight]
  | cons i items ih =>
    rw [List.cons_append, itemsWeight, itemsWeight, ih]
    omega

/-- What is read weighs no more than what it is read from, with what is there already. -/
theorem weight_value (fuel : Nat) :
    (∀ cs j rest, value fuel cs = some (j, rest) → weight j + mass rest ≤ mass cs) ∧
    (∀ fields cs j rest, members fuel fields cs = some (j, rest) →
      weight j + mass rest ≤ 1 + fieldsWeight fields + mass cs) ∧
    (∀ items cs j rest, elements fuel items cs = some (j, rest) →
      weight j + mass rest ≤ 1 + itemsWeight items + mass cs) := by
  induction fuel with
  | zero => exact ⟨nofun, nofun, nofun⟩
  | succ fuel ih =>
    obtain ⟨hvalue, hmembers, helements⟩ := ih
    refine ⟨fun cs j rest h => ?_, fun fields cs j rest h => ?_, fun items cs j rest h => ?_⟩
    · have hspace := mass_le_of_isInfix (List.dropWhile_suffix (l := cs) isSpace).isInfix
      rw [value] at h
      split at h
      · cases h
      next c inner hs =>
      rw [← skipSpace, hs, mass_cons] at hspace
      split_ifs at h with hbrace hbracket hquote
      · have hone : mass [c] = 1 := by
          rw [hbrace]
          decide
        split at h
        · next hclose =>
          cases h
          have htoken := mass_token (by decide) hclose
          rw [weight, fieldsWeight]
          omega
        · have hlater := hmembers _ _ _ _ h
          rw [fieldsWeight] at hlater
          omega
      · have hone : mass [c] = 1 := by
          rw [hbracket]
          decide
        split at h
        · next hclose =>
          cases h
          have htoken := mass_token (by decide) hclose
          rw [weight, itemsWeight]
          omega
        · have hlater := helements _ _ _ _ h
          rw [itemsWeight] at hlater
          omega
      · have hone : mass [c] = 1 := by
          rw [hquote]
          decide
        obtain ⟨⟨s, rest'⟩, hstring, heq⟩ := Option.map_eq_some_iff.mp h
        cases heq
        have hread := mass_string hstring
        rw [weight]
        dsimp only
        omega
      · have hread := weight_scalar h
        rw [mass_cons] at hread
        omega
    · rw [members] at h
      obtain ⟨cs₁, hquote, h⟩ := Option.bind_eq_some_iff.mp h
      obtain ⟨key, hkey, h⟩ := Option.bind_eq_some_iff.mp h
      obtain ⟨cs₂, hcolon, h⟩ := Option.bind_eq_some_iff.mp h
      obtain ⟨v, hv, h⟩ := Option.bind_eq_some_iff.mp h
      have hopen := mass_token (by decide) hquote
      have hstring := mass_string hkey
      have hmiddle := mass_token (by decide) hcolon
      have hread := hvalue _ _ _ hv
      obtain ⟨hpos, hinsert⟩ := fieldsWeight_insert fields key.1 v.1
      dsimp only at h
      split at h
      · next hcomma =>
        have hseparator := mass_token (by decide) hcomma
        have hlater := hmembers _ _ _ _ h
        omega
      · obtain ⟨rest', hclose, heq⟩ := Option.map_eq_some_iff.mp h
        cases heq
        have hend := mass_token (by decide) hclose
        rw [weight]
        omega
    · rw [elements] at h
      obtain ⟨v, hv, h⟩ := Option.bind_eq_some_iff.mp h
      have hread := hvalue _ _ _ hv
      have happend := itemsWeight_append items v.1
      dsimp only at h
      split at h
      · next hcomma =>
        have hseparator := mass_token (by decide) hcomma
        have hlater := helements _ _ _ _ h
        omega
      · obtain ⟨rest', hclose, heq⟩ := Option.map_eq_some_iff.mp h
        cases heq
        have hend := mass_token (by decide) hclose
        rw [weight]
        omega

/-! ### What a program holds -/

theorem fieldsWeight_eq_sum (fields : List (String × Json)) : fieldsWeight fields =
    (fields.map fun e => mass (JsValue.quote e.1) + 1 + weight e.2 + 1).sum := by
  induction fields with
  | nil => rfl
  | cons e fields ih => rw [fieldsWeight, List.map_cons, List.sum_cons, ih]

mutual
/-- Numbers have no weight, and the order of members makes no difference. -/
theorem weight_held (j : Json) : weight (held j) = weight j := by
  cases j with
  | arr items =>
    have hitems := itemsWeight_held items
    rw [held, rebuild, weight, weight, hitems]
  | obj fields =>
    have hfields := fieldsWeight_held fields
    have hperm := (List.perm_insertionSort (fun a b : String × Json => Precedes a.1 b.1)
      (rebuildFields (fun q => num (JsNumber.double q)) orderKeys fields)).map
        fun e => mass (JsValue.quote e.1) + 1 + weight e.2 + 1
    rw [held, rebuild, weight, weight, ← hfields, fieldsWeight_eq_sum, fieldsWeight_eq_sum]
    exact congrArg (fun n => 2 + (n - 1)) hperm.sum_eq
  | null | bool b | num q | str s => rfl

theorem itemsWeight_held (items : List Json) :
    itemsWeight (rebuildItems (fun q => num (JsNumber.double q)) orderKeys items) =
      itemsWeight items := by
  cases items with
  | nil => rfl
  | cons j items =>
    have hj := weight_held j
    rw [held] at hj
    rw [rebuildItems, itemsWeight, itemsWeight, hj, itemsWeight_held items]

theorem fieldsWeight_held (fields : List (String × Json)) :
    fieldsWeight (rebuildFields (fun q => num (JsNumber.double q)) orderKeys fields) =
      fieldsWeight fields := by
  cases fields with
  | nil => rfl
  | cons e fields =>
    obtain ⟨k, j⟩ := e
    have hj := weight_held j
    rw [held] at hj
    rw [rebuildFields, fieldsWeight, fieldsWeight, hj, fieldsWeight_held fields]
end

theorem weight_read {text : String} {j : Json} (h : read text = some j) :
    weight j ≤ mass text.toList := by
  obtain ⟨j, hparse, rfl⟩ := Option.map_eq_some_iff.mp h
  obtain ⟨⟨j', rest⟩, hvalue, hrest⟩ := Option.bind_eq_some_iff.mp hparse
  split at hrest
  · cases hrest
    have hle := (weight_value _).1 _ _ _ hvalue
    rw [weight_held]
    dsimp only
    omega
  · cases hrest

/-- A text that leaves out a part of what is written of a value is not read as the value. -/
theorem read_ne_of_mass_lt {cs : List Char} {j : Json}
    (h : mass cs < mass (JsValue.stringify j)) : read (String.ofList cs) ≠ some j := by
  intro hread
  have hle := weight_read hread
  rw [String.toList_ofList, ← mass_stringify] at hle
  exact absurd h (Nat.not_lt.mpr hle)

end KirkForge.Json
