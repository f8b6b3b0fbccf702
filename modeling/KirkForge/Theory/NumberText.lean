import KirkForge.Theory.JsNumber
import KirkForge.Theory.Json
import Mathlib.Data.Nat.Digits.Lemmas
import Mathlib.Tactic.FieldSimp
import Mathlib.Tactic.Ring

/-!
# Reading back the text of a number

A finite number is read back from its text (`number_finiteChars`), provided that it is a decimal
fraction, as all numbers of ECMAScript are, and that what follows does not continue a number.
-/

namespace KirkForge

/-- The number is a decimal fraction, with no more places than any number has. -/
def JsNumber.IsDecimal (q : ℚ) : Prop := ∃ k < 400, (q * 10 ^ k).den = 1

theorem JsNumber.isDecimal_natCast (n : Nat) : IsDecimal n := ⟨0, by decide, by simp⟩

namespace Json

/-! ### Digits -/

theorem natOfDigits_append (ds es : List Char) :
    natOfDigits (ds ++ es) = natOfDigits ds * 10 ^ es.length + natOfDigits es := by
  have hfoldl (n : Nat) : es.foldl (fun n c => 10 * n + (c.toNat - '0'.toNat)) n =
      n * 10 ^ es.length + natOfDigits es := by
    unfold natOfDigits
    induction es generalizing n with
    | nil => simp
    | cons e es ih =>
      rw [List.foldl_cons, List.foldl_cons, ih, ih (10 * 0 + _), List.length_cons, pow_succ]
      ring
  rw [natOfDigits, List.foldl_append, hfoldl]
  rfl

theorem natOfDigits_zeros (k : Nat) : natOfDigits (List.replicate k '0') = 0 := by
  induction k with
  | zero => rfl
  | succ k ih => rw [List.replicate_succ', natOfDigits_append, ih]; rfl

theorem digitChar_lt {d : Nat} (h : d < 10) :
    (Nat.digitChar d).isDigit = true ∧ (Nat.digitChar d).toNat - '0'.toNat = d ∧
      (Nat.digitChar d = '0' → d = 0) := by
  have hall : ∀ d < 10, (Nat.digitChar d).isDigit = true ∧
      (Nat.digitChar d).toNat - '0'.toNat = d ∧ (Nat.digitChar d = '0' → d = 0) := by
    decide
  exact hall d h

/-- The characters are decimal digits. -/
def AllDigits (cs : List Char) : Prop := ∀ c ∈ cs, c.isDigit = true

theorem allDigits_digitChars (n : Nat) : AllDigits (JsNumber.digitChars n) := by
  intro c hc
  obtain ⟨d, hd, rfl⟩ := List.mem_map.mp hc
  exact (digitChar_lt (Nat.digits_lt_base (by decide) (List.mem_reverse.mp hd))).1

theorem allDigits_zeros (k : Nat) : AllDigits (List.replicate k '0') := fun c hc => by
  rw [List.eq_of_mem_replicate hc]; rfl

theorem natOfDigits_digitChars (n : Nat) : natOfDigits (JsNumber.digitChars n) = n := by
  have hdigits : ∀ ds : List Nat, (∀ d ∈ ds, d < 10) →
      natOfDigits (ds.reverse.map Nat.digitChar) = Nat.ofDigits 10 ds := by
    intro ds hds
    induction ds with
    | nil => rfl
    | cons d ds ih =>
      obtain ⟨hd, hds⟩ := List.forall_mem_cons.mp hds
      have hone : natOfDigits [Nat.digitChar d] = d := by
        rw [natOfDigits, List.foldl_cons, List.foldl_nil, (digitChar_lt hd).2.1]
        omega
      rw [List.reverse_cons, List.map_append, natOfDigits_append, ih hds, List.map_cons,
        List.map_nil, hone, Nat.ofDigits_cons]
      simp only [List.length_singleton, pow_one]
      ring
  rw [JsNumber.digitChars, hdigits _ fun d hd => Nat.digits_lt_base (by decide) hd,
    Nat.ofDigits_digits]

theorem digitChars_ne_nil {n : Nat} (h : n ≠ 0) : JsNumber.digitChars n ≠ [] := by
  simpa [JsNumber.digitChars, Nat.digits_eq_nil_iff_eq_zero] using h

/-- A number does not begin with a zero. -/
theorem head_digitChars_ne {n : Nat} : (JsNumber.digitChars n).head? ≠ some '0' := by
  intro hhead
  by_cases h : n = 0
  · simp [JsNumber.digitChars, h] at hhead
  rw [JsNumber.digitChars, List.head?_map, List.head?_reverse] at hhead
  have hne : Nat.digits 10 n ≠ [] := Nat.digits_ne_nil_iff_ne_zero.mpr h
  rw [List.getLast?_eq_getLast_of_ne_nil hne, Option.map_some, Option.some.injEq] at hhead
  have hlt : (Nat.digits 10 n).getLast hne < 10 :=
    Nat.digits_lt_base (by decide) (List.getLast_mem hne)
  exact Nat.getLast_digit_ne_zero 10 h ((digitChar_lt hlt).2.2 hhead)

/-! ### Numbers -/

/-- The text does not continue a number. -/
def Stops (cs : List Char) : Prop :=
  ∀ c, cs.head? = some c → c.isDigit = false ∧ c ≠ '.' ∧ c ≠ 'e' ∧ c ≠ 'E'

theorem stops_nil : Stops [] := nofun

theorem takeWhile_isDigit {ds rest : List Char} (hds : AllDigits ds)
    (hrest : ∀ c, rest.head? = some c → c.isDigit = false) :
    (ds ++ rest).takeWhile Char.isDigit = ds ∧ (ds ++ rest).dropWhile Char.isDigit = rest := by
  induction ds with
  | nil =>
    cases rest with
    | nil => exact ⟨rfl, rfl⟩
    | cons c rest => simp [hrest c rfl]
  | cons d ds ih =>
    obtain ⟨hd, hds⟩ := List.forall_mem_cons.mp hds
    simp [hd, ih hds]

theorem digits_append {ds rest : List Char} (hne : ds ≠ []) (hds : AllDigits ds)
    (hrest : ∀ c, rest.head? = some c → c.isDigit = false) :
    digits (ds ++ rest) = some (ds, rest) := by
  obtain ⟨htake, hdrop⟩ := takeWhile_isDigit hds hrest
  rw [digits, htake, hdrop, if_neg hne]

/-- A number without its sign. -/
def magnitude (cs : List Char) : Option (ℚ × List Char) :=
  (digits cs).bind fun whole =>
    if whole.1.head? = some '0' ∧ whole.1.length ≠ 1 then none
    else
      (fraction whole.2).bind fun frac =>
        (exponent frac.2).map fun (exp : ℤ × List Char) =>
          (natOfDigits (whole.1 ++ frac.1) * (10 : ℚ) ^ (exp.1 - (frac.1.length : ℤ)), exp.2)

theorem scaled_eq (m : ℚ) (k : Nat) (e : ℤ) :
    (if 0 ≤ e then m / 10 ^ k * 10 ^ e.toNat else m / 10 ^ k / 10 ^ (-e).toNat) =
      m * (10 : ℚ) ^ (e - (k : ℤ)) := by
  have h10 : (10 : ℚ) ≠ 0 := by norm_num
  split
  · next he =>
    rw [zpow_sub₀ h10, ← Int.toNat_of_nonneg he, zpow_natCast, zpow_natCast, Int.toNat_natCast]
    ring
  · next he =>
    have hneg : e = -((-e).toNat : ℤ) := by omega
    rw [zpow_sub₀ h10, hneg, zpow_neg, zpow_natCast, zpow_natCast, neg_neg, Int.toNat_natCast]
    field_simp

theorem number_eq_magnitude {cs body : List Char} {negative : Bool}
    (h : minus cs = (negative, body)) :
    number cs = (magnitude body).map fun r => (if negative then -r.1 else r.1, r.2) := by
  rw [number, magnitude, h]
  cases digits body with
  | none => rfl
  | some whole =>
    simp only [Option.bind_some]
    split
    · rfl
    cases fraction whole.2 with
    | none => rfl
    | some frac =>
      simp only [Option.bind_some]
      cases exponent frac.2 with
      | none => rfl
      | some exp => simp only [Option.map_some, scaled_eq]

theorem head_not_digit {c : Char} (h : c.isDigit = false) (cs : List Char) :
    ∀ d, (c :: cs).head? = some d → d.isDigit = false := fun _ hd => Option.some.inj hd ▸ h

theorem magnitude_append {whole frac tail mid rest : List Char} {e : ℤ} (hne : whole ≠ [])
    (hwhole : AllDigits whole) (hzero : whole.head? = some '0' → whole.length = 1)
    (htail : ∀ c, tail.head? = some c → c.isDigit = false) (hfrac : fraction tail = some (frac, mid))
    (hexp : exponent mid = some (e, rest)) :
    magnitude (whole ++ tail) =
      some (natOfDigits (whole ++ frac) * (10 : ℚ) ^ (e - (frac.length : ℤ)), rest) := by
  rw [magnitude, digits_append hne hwhole htail, Option.bind_some, if_neg, hfrac, Option.bind_some,
    hexp, Option.map_some]
  exact fun h => h.2 (hzero h.1)

theorem fraction_of_stops {cs : List Char} (h : Stops cs) : fraction cs = some ([], cs) := by
  rw [fraction.eq_def]
  split
  · exact absurd rfl (h _ rfl).2.1
  · rfl

theorem exponent_of_stops {cs : List Char} (h : Stops cs) : exponent cs = some (0, cs) := by
  rw [exponent.eq_def]
  split
  · rfl
  · next c cs =>
    obtain ⟨-, -, he, hE⟩ := h c rfl
    rw [if_neg (not_or.mpr ⟨he, hE⟩)]

theorem fraction_point {frac rest : List Char} (hne : frac ≠ []) (hfrac : AllDigits frac)
    (hrest : ∀ c, rest.head? = some c → c.isDigit = false) :
    fraction ('.' :: (frac ++ rest)) = some (frac, rest) := digits_append hne hfrac hrest

theorem exponent_digits {m : Nat} (hm : m ≠ 0) (negative : Bool) {rest : List Char}
    (hrest : Stops rest) :
    exponent ('e' :: (if negative then '-' else '+') :: (JsNumber.digitChars m ++ rest)) =
      some (if negative then -(m : ℤ) else m, rest) := by
  have hdigits := digits_append (digitChars_ne_nil hm) (allDigits_digitChars m) fun c hc =>
    (hrest c hc).1
  cases negative <;>
    simp [exponent, minus, hdigits, natOfDigits_digitChars]

/-- Digits with a decimal point or an exponent are read as the number that they denote. -/
theorem magnitude_layout {ds rest : List Char} (hne : ds ≠ []) (hds : AllDigits ds)
    (hhead : ds.head? ≠ some '0') (n : ℤ) (hrest : Stops rest) :
    magnitude (JsNumber.layout ds n ++ rest) =
      some (natOfDigits ds * (10 : ℚ) ^ (n - (ds.length : ℤ)), rest) := by
  have hstop : ∀ c, rest.head? = some c → c.isDigit = false := fun c hc => (hrest c hc).1
  have hnil : AllDigits [] := nofun
  have hlen : ds.length ≠ 0 := fun h => hne (List.length_eq_zero_iff.mp h)
  have hheads (es : List Char) (h : (ds ++ es).head? = some '0') : False := by
    rw [List.head?_append_of_ne_nil ds hne] at h
    exact hhead h
  simp only [JsNumber.layout]
  split
  · next hint =>
    -- zeros behind the digits
    have hwhole : AllDigits (ds ++ List.replicate (n - ds.length).toNat '0') :=
      List.forall_mem_append.mpr ⟨hds, allDigits_zeros _⟩
    rw [magnitude_append (by simp [hne]) hwhole (fun h => (hheads _ h).elim) hstop
      (fraction_of_stops hrest) (exponent_of_stops hrest), List.append_nil, natOfDigits_append,
      natOfDigits_zeros, List.length_replicate]
    obtain ⟨k, hk⟩ := Int.eq_ofNat_of_zero_le (show 0 ≤ n - (ds.length : ℤ) by omega)
    simp [hk]
  split
  · next hint hpoint =>
    -- the point between the digits
    have hk : n.toNat < ds.length := by omega
    have htake : ds.take n.toNat ≠ [] := by simp [hne]; omega
    have hdrop : ds.drop n.toNat ≠ [] := by simpa using hk
    have htakes : AllDigits (ds.take n.toNat) := fun c hc => hds c (List.mem_of_mem_take hc)
    have hdrops : AllDigits (ds.drop n.toNat) := fun c hc => hds c (List.mem_of_mem_drop hc)
    rw [List.append_assoc, List.cons_append, magnitude_append htake htakes
      (fun h => absurd (by rwa [List.head?_take, if_neg (by omega)] at h) hhead) (head_not_digit rfl _)
      (fraction_point hdrop hdrops hstop) (exponent_of_stops hrest), List.take_append_drop,
      List.length_drop, Int.natCast_sub hk.le]
    congr 4
    omega
  split
  · next hint hpoint hsmall =>
    -- zeros between the point and the digits
    have hfrac : AllDigits (List.replicate (-n).toNat '0' ++ ds) :=
      List.forall_mem_append.mpr ⟨allDigits_zeros _, hds⟩
    have hzero : AllDigits ['0'] := allDigits_zeros 1
    have hvalue : natOfDigits (['0'] ++ (List.replicate (-n).toNat '0' ++ ds)) = natOfDigits ds := by
      rw [natOfDigits_append, natOfDigits_append, natOfDigits_zeros]
      simp [natOfDigits]
    have h := magnitude_append (List.cons_ne_nil '0' []) hzero (fun _ => rfl) (head_not_digit rfl _)
      (fraction_point (by simp [hne]) hfrac hstop) (exponent_of_stops hrest)
    rw [hvalue, List.length_append, List.length_replicate] at h
    rw [List.cons_append, List.cons_append]
    rw [List.singleton_append] at h
    rw [h]
    congr 4
    omega
  · next hint hpoint hsmall =>
    -- one digit in front of the point, and an exponent
    have hexp : (n - 1).natAbs ≠ 0 := by omega
    have hvalue : (if n < 1 then -((n - 1).natAbs : ℤ) else (n - 1).natAbs) = n - 1 := by
      split <;> omega
    have hexponent := exponent_digits hexp (decide (n < 1)) hrest
    simp only [decide_eq_true_eq, hvalue] at hexponent
    have htake : ds.take 1 ≠ [] := by simp [hne]
    have htakes : AllDigits (ds.take 1) := fun c hc => hds c (List.mem_of_mem_take hc)
    have hdrops : AllDigits (ds.drop 1) := fun c hc => hds c (List.mem_of_mem_drop hc)
    have hzero : (ds.take 1).head? = some '0' → (ds.take 1).length = 1 := fun _ => by
      rw [List.length_take]
      omega
    split
    · next hone =>
      rw [List.append_nil, List.append_assoc, List.cons_append, List.cons_append,
        magnitude_append htake htakes hzero (head_not_digit rfl _) (by rfl) hexponent, List.append_nil,
        List.take_of_length_le hone.le, hone]
      simp
    · next hmore =>
      have hdrop : ds.drop 1 ≠ [] := fun h => by have := List.drop_eq_nil_iff.mp h; omega
      rw [List.append_assoc, List.append_assoc, List.cons_append, List.cons_append, List.cons_append,
        magnitude_append htake htakes hzero (head_not_digit rfl _)
        (fraction_point hdrop hdrops (head_not_digit rfl _)) hexponent, List.take_append_drop,
        List.length_drop]
      congr 4
      omega

theorem decimalPlaces_spec {q : ℚ} (h : JsNumber.IsDecimal q) :
    (q * 10 ^ JsNumber.decimalPlaces q).den = 1 := by
  obtain ⟨k, hk, hden⟩ := h
  unfold JsNumber.decimalPlaces
  cases hfind : (List.range 400).find? fun k => (q * 10 ^ k).den = 1 with
  | none => exact absurd hden (by simpa using List.find?_eq_none.mp hfind k (List.mem_range.mpr hk))
  | some k => simpa using List.find?_some hfind

/-- The zeros at the end of a list of digits stand apart. -/
theorem exists_zeros (ds : List Char) :
    ∃ z, ds = (ds.reverse.dropWhile (· = '0')).reverse ++ List.replicate z '0' := by
  have hzeros : ∀ c ∈ ds.reverse.takeWhile (· = '0'), c = '0' := fun c hc => by
    simpa using List.all_eq_true.mp List.all_takeWhile c hc
  refine ⟨(ds.reverse.takeWhile (· = '0')).length, ?_⟩
  have hsplit := congrArg List.reverse
    (List.takeWhile_append_dropWhile (p := (decide <| · = '0')) (l := ds.reverse))
  rw [List.reverse_append, List.reverse_reverse] at hsplit
  conv_lhs => rw [← hsplit]
  rw [List.eq_replicate_of_mem hzeros, List.reverse_replicate, List.length_replicate]

theorem minus_of_ne {cs : List Char} (h : cs.head? ≠ some '-') : minus cs = (false, cs) := by
  rw [minus.eq_def]
  split
  · exact absurd rfl h
  · rfl

theorem head_layout_ne {ds : List Char} (hne : ds ≠ []) (hds : AllDigits ds) (n : ℤ)
    (rest : List Char) : (JsNumber.layout ds n ++ rest).head? ≠ some '-' := by
  have hd : ∀ c, ds.head? = some c → c ≠ '-' := fun c hc hminus => by
    have := hds c (List.mem_of_mem_head? hc)
    rw [hminus] at this
    exact absurd this (by decide)
  obtain ⟨d, ds, rfl⟩ := List.exists_cons_of_ne_nil hne
  simp only [JsNumber.layout]
  split
  · simpa using hd d rfl
  split
  · next hpoint =>
    obtain ⟨m, hm⟩ := Nat.exists_eq_succ_of_ne_zero (show n.toNat ≠ 0 by omega)
    simpa [hm] using hd d rfl
  split
  · simp
  · simpa using hd d rfl

/-- A finite number is read back from its text. -/
theorem number_finiteChars {q : ℚ} (hq : JsNumber.IsDecimal q) {rest : List Char}
    (hrest : Stops rest) : number (JsNumber.finiteChars q ++ rest) = some (q, rest) := by
  rw [JsNumber.finiteChars]
  split
  · next hzero =>
    have hdigit : AllDigits ['0'] := allDigits_zeros 1
    rw [number_eq_magnitude (minus_of_ne (by simp)), magnitude_append (List.cons_ne_nil '0' []) hdigit
      (fun _ => rfl) (fun c hc => (hrest c hc).1) (fraction_of_stops hrest) (exponent_of_stops hrest)]
    simp [natOfDigits, hzero]
  next hne =>
  dsimp only
  set places := JsNumber.decimalPlaces q
  set m := (q * 10 ^ places).num.natAbs
  set all := JsNumber.digitChars m
  set ds := (all.reverse.dropWhile (· = '0')).reverse
  obtain ⟨z, hz⟩ := exists_zeros all
  have hall : AllDigits (ds ++ List.replicate z '0') := hz ▸ allDigits_digitChars m
  have hds : AllDigits ds := (List.forall_mem_append.mp hall).1
  have hm : m ≠ 0 := by
    simp only [m, ne_eq, Int.natAbs_eq_zero, Rat.num_eq_zero, mul_eq_zero, hne, false_or]
    exact pow_ne_zero _ (by norm_num)
  have hnil : ds ≠ [] := by
    intro hnil
    have hzeros : all = List.replicate z '0' := by rw [hz]; simp [ds, hnil]
    cases z with
    | zero => exact digitChars_ne_nil hm hzeros
    | succ z => exact head_digitChars_ne (n := m) (congrArg List.head? hzeros)
  have hhead : ds.head? ≠ some '0' := by
    intro hhead
    refine head_digitChars_ne (n := m) ?_
    rw [show JsNumber.digitChars m = ds ++ List.replicate z '0' from hz,
      List.head?_append_of_ne_nil ds hnil, hhead]
  -- the digits without the zeros, moved by the decimal places, are the absolute value
  have hvalue : natOfDigits ds * (10 : ℚ) ^ ((all.length : ℤ) - places - (ds.length : ℤ)) = |q| := by
    have habs : ((m : ℕ) : ℚ) = |q| * 10 ^ places := by
      have hint : ((q * 10 ^ places).num : ℚ) = q * 10 ^ places := by
        rw [← Rat.den_eq_one_iff]
        exact decimalPlaces_spec hq
      rw [← abs_of_pos (show (0 : ℚ) < 10 ^ places by positivity), ← abs_mul, ← hint, ← Int.cast_abs,
        ← Int.natCast_natAbs, Int.cast_natCast]
    have hdigits : m = natOfDigits ds * 10 ^ z := by
      rw [← natOfDigits_digitChars m, show JsNumber.digitChars m = ds ++ List.replicate z '0' from hz,
        natOfDigits_append, natOfDigits_zeros, List.length_replicate]
      rfl
    have hlen : (all.length : ℤ) = ds.length + z := by
      conv_lhs => rw [hz]
      simp [ds]
    have h10 : (10 : ℚ) ≠ 0 := by norm_num
    have hexp : (all.length : ℤ) - places - (ds.length : ℤ) = z - places := by omega
    rw [hexp, zpow_sub₀ h10, zpow_natCast, zpow_natCast, ← mul_div_assoc,
      div_eq_iff (pow_ne_zero _ h10), ← habs, hdigits]
    push_cast
    rfl
  split
  · next hneg =>
    rw [List.append_assoc, List.singleton_append, @number_eq_magnitude _ _ true rfl,
      magnitude_layout hnil hds hhead _ hrest, hvalue, Option.map_some, if_pos rfl, abs_of_neg hneg,
      neg_neg]
  · next hpos =>
    rw [List.nil_append, number_eq_magnitude (minus_of_ne (head_layout_ne hnil hds _ _)),
      magnitude_layout hnil hds hhead _ hrest, hvalue, Option.map_some,
      abs_of_nonneg (not_lt.mp hpos)]
    rfl

end Json

end KirkForge
