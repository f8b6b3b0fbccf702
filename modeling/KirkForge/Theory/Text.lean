import Mathlib.Data.List.Infix
import Mathlib.Data.Rat.Floor

/-!
# Text

The string operations of ECMAScript that the development uses, on Lean strings. A string is a
sequence of Unicode scalar values; no function below depends on how a character is encoded. At the
end, `toISOString` of a `Date`.
-/

namespace KirkForge.Text

/-- The characters that `String.prototype.trim` and `\s` treat as white space. -/
def isWhitespace (c : Char) : Bool :=
  c.toNat ∈ [0x09, 0x0A, 0x0B, 0x0C, 0x0D, 0x20, 0xA0, 0x1680, 0x2028, 0x2029, 0x202F, 0x205F,
    0x3000, 0xFEFF] || (0x2000 ≤ c.toNat && c.toNat ≤ 0x200A)

/-- `s.trimStart()` on characters. -/
def trimStart (cs : List Char) : List Char := cs.dropWhile isWhitespace

/-- `s.trimEnd()` on characters. -/
def trimEnd (cs : List Char) : List Char := (trimStart cs.reverse).reverse

/-- `s.trim()`. -/
def trim (s : String) : String := String.ofList (trimEnd (trimStart s.toList))

/-- `s.split(c)` for a separator of one character. -/
def split (c : Char) (s : String) : List String := (s.toList.splitOn c).map String.ofList

/-- `s.split(/\s+/)`. -/
def splitSpaces (s : String) : List String :=
  match s.toList.splitOnP isWhitespace with
  | [] => []
  | w :: ws => (w :: (ws.dropLast.filter (· ≠ []) ++ ws.getLast?.toList)).map String.ofList

/-- `s.startsWith(p)`. -/
def startsWith (s p : String) : Bool := p.toList.isPrefixOf s.toList

/-- `s.includes(p)`. -/
def includes (s p : String) : Bool := p.toList <:+: s.toList

/-- `s.slice(n)` for a non-negative `n`. -/
def sliceFrom (s : String) (n : Nat) : String := String.ofList (s.toList.drop n)

/-- `s.slice(0, n)` for a non-negative `n`. -/
def sliceTo (s : String) (n : Nat) : String := String.ofList (s.toList.take n)

/-- `list.join(sep)`. -/
def join (sep : String) (list : List String) : String := sep.intercalate list

/-- `c.toLowerCase()`. Besides the ASCII letters only the Kelvin sign and the dotted capital I
have an ASCII letter in their lower case, so every other character is left as it is. -/
def lowerChar (c : Char) : List Char :=
  if c.toNat = 0x212A then ['k']
  else if c.toNat = 0x130 then ['i', Char.ofNat 0x307]
  else [c.toLower]

/-- `s.toLowerCase()`, exact on the ASCII characters of the result. -/
def toLowerCase (s : String) : String := String.ofList (s.toList.flatMap lowerChar)

/-- The decimal digits of `n`, at least `width` of them. -/
def padDigits (width n : Nat) : String :=
  let digits := (toString n).toList
  String.ofList (List.replicate (width - digits.length) '0' ++ digits)

/-- The code units of a string, by which strings are compared. -/
def utf16 (s : String) : List Nat :=
  s.toList.flatMap fun c =>
    if c.toNat < 0x10000 then [c.toNat]
    else [0xD800 + (c.toNat - 0x10000) / 0x400, 0xDC00 + (c.toNat - 0x10000) % 0x400]

/-- The first code that differs decides. -/
def codesLt : List Nat → List Nat → Bool
  | _, [] => false
  | [], _ :: _ => true
  | a :: as, b :: bs => a < b || (a = b && codesLt as bs)

/-- `s <= t` -/
def le (s t : String) : Bool := !codesLt (utf16 t) (utf16 s)

/-- `x.toFixed(d)` for `0 < d`: of the two nearest multiples of `10^(-d)` the larger wins a tie,
and the sign is written first. -/
def toFixed (d : Nat) (x : ℚ) : String :=
  let scaled := (|x| * 10 ^ d + 1 / 2).floor.toNat
  (if x < 0 then "-" else "") ++ toString (scaled / 10 ^ d) ++ "." ++
    padDigits d (scaled % 10 ^ d)

example : toFixed 4 (1 / 8) = "0.1250" := by decide +kernel

/-- Cutting a string off at its own length or later leaves nothing. -/
theorem sliceFrom_of_length_le {s : String} {n : Nat} (h : s.length ≤ n) :
    sliceFrom s n = "" := by
  rw [sliceFrom, List.drop_eq_nil_of_le (by rwa [String.length_toList]), String.ofList_nil]

/-- A trimmed string does not begin with white space. -/
theorem not_isWhitespace_of_trim {s : String} {c : Char} (h : (trim s).toList.head? = some c) :
    isWhitespace c = false := by
  rw [trim, String.toList_ofList, trimEnd, trimStart, trimStart] at h
  generalize hcs : s.toList.dropWhile isWhitespace = cs at h
  have hprefix : (cs.reverse.dropWhile isWhitespace).reverse <+: cs := by
    rw [← List.reverse_suffix, List.reverse_reverse]
    exact List.dropWhile_suffix _
  have hhead : cs.head? = some c := by
    obtain ⟨rest, hrest⟩ := hprefix
    rw [← hrest, List.head?_append, h]
    rfl
  have hnot := List.head?_dropWhile_not isWhitespace s.toList
  rw [hcs, hhead] at hnot
  exact hnot

/-! ### Numbers of one width sort as numbers -/

theorem utf16_append (s t : String) : utf16 (s ++ t) = utf16 s ++ utf16 t := by
  simp [utf16]

/-- The codes of the last `w` decimal digits of `n`. -/
def digitCodes : Nat → Nat → List Nat
  | 0, _ => []
  | w + 1, n => digitCodes w (n / 10) ++ [48 + n % 10]

theorem length_digitCodes (w n : Nat) : (digitCodes w n).length = w := by
  induction w generalizing n with
  | zero => rfl
  | succ w ih => simp [digitCodes, ih]

theorem digitCodes_zero (w : Nat) : digitCodes w 0 = List.replicate w 48 := by
  induction w with
  | zero => rfl
  | succ w ih => simp [digitCodes, ih, List.replicate_succ']

theorem utf16_digit {d : Nat} (h : d < 10) : utf16 (String.ofList [d.digitChar]) = [48 + d] := by
  have hall : ∀ d < 10, utf16 (String.ofList [Nat.digitChar d]) = [48 + d] := by decide
  exact hall d h

theorem utf16_zeros (k : Nat) :
    utf16 (String.ofList (List.replicate k '0')) = List.replicate k 48 := by
  induction k with
  | zero => rfl
  | succ k ih =>
    have hcons : String.ofList (List.replicate (k + 1) '0') =
        String.ofList ['0'] ++ String.ofList (List.replicate k '0') := by
      rw [← String.ofList_append]
      rfl
    rw [hcons, utf16_append, ih]
    rfl

/-- A number of at most `w + 1` digits, padded to that width. -/
theorem utf16_padDigits {w n : Nat} (h : n < 10 ^ (w + 1)) :
    utf16 (padDigits (w + 1) n) = digitCodes (w + 1) n := by
  induction w generalizing n with
  | zero =>
    have hn : n < 10 := by simpa using h
    have hdigits : (toString n).toList = [n.digitChar] := by
      rw [Nat.toString_eq_repr, Nat.toList_repr, Nat.toDigits_of_lt_base hn]
    simp only [padDigits, hdigits, digitCodes, List.length_singleton, Nat.sub_self,
      List.replicate_zero, List.nil_append, utf16_digit hn, Nat.mod_eq_of_lt hn]
  | succ w ih =>
    by_cases hn : n < 10
    · have hdigits : (toString n).toList = [n.digitChar] := by
        rw [Nat.toString_eq_repr, Nat.toList_repr, Nat.toDigits_of_lt_base hn]
      rw [padDigits, hdigits, List.length_singleton, Nat.add_sub_cancel, String.ofList_append,
        utf16_append, utf16_zeros, utf16_digit hn, digitCodes, Nat.div_eq_of_lt hn,
        digitCodes_zero, Nat.mod_eq_of_lt hn]
    · have hdigits : (toString n).toList =
          (toString (n / 10)).toList ++ [(n % 10).digitChar] := by
        rw [Nat.toString_eq_repr, Nat.toString_eq_repr, Nat.toList_repr, Nat.toList_repr,
          Nat.toDigits_of_base_le (by decide) (Nat.le_of_not_lt hn)]
      have hdiv : n / 10 < 10 ^ (w + 1) := by
        rw [Nat.div_lt_iff_lt_mul (by decide), ← Nat.pow_succ]
        exact h
      have hpad : padDigits (w + 1 + 1) n =
          padDigits (w + 1) (n / 10) ++ String.ofList [(n % 10).digitChar] := by
        rw [padDigits, padDigits, hdigits, ← String.ofList_append, List.length_append,
          List.length_singleton, Nat.add_sub_add_right, List.append_assoc]
      rw [hpad, utf16_append, ih hdiv, utf16_digit (Nat.mod_lt n (by decide))]
      rfl

theorem codesLt_append_left (cs as bs : List Nat) :
    codesLt (cs ++ as) (cs ++ bs) = codesLt as bs := by
  induction cs with
  | nil => rfl
  | cons c cs ih => simp [codesLt, ih]

/-- What follows equally many codes decides only between equal beginnings. -/
theorem codesLt_append {as bs : List Nat} (hlen : as.length = bs.length)
    (h : codesLt as bs = true) (xs ys : List Nat) : codesLt (as ++ xs) (bs ++ ys) = true := by
  induction as generalizing bs with
  | nil =>
    cases bs with
    | nil => exact nomatch h
    | cons b bs => exact absurd hlen (Nat.succ_ne_zero _).symm
  | cons a as ih =>
    cases bs with
    | nil => exact absurd hlen (Nat.succ_ne_zero _)
    | cons b bs =>
      simp only [codesLt, List.cons_append, Bool.or_eq_true, Bool.and_eq_true] at h ⊢
      exact h.imp_right fun hab => ⟨hab.1, ih (Nat.succ.inj hlen) hab.2⟩

theorem codesLt_asymm {as bs : List Nat} (h : codesLt as bs = true) : codesLt bs as = false := by
  induction as generalizing bs with
  | nil => cases bs <;> rfl
  | cons a as ih =>
    cases bs with
    | nil => exact nomatch h
    | cons b bs =>
      simp only [codesLt, Bool.or_eq_true, Bool.and_eq_true, decide_eq_true_eq] at h
      rcases h with hab | ⟨rfl, h⟩
      · simp [codesLt, Nat.not_lt_of_lt hab, Nat.ne_of_gt hab]
      · simp [codesLt, ih h]

/-- Codes of which neither list is first are the same. -/
theorem eq_of_not_codesLt {as bs : List Nat} (h : codesLt as bs = false)
    (h' : codesLt bs as = false) : as = bs := by
  induction as generalizing bs with
  | nil =>
    cases bs with
    | nil => rfl
    | cons b bs => exact nomatch h
  | cons a as ih =>
    cases bs with
    | nil => exact nomatch h'
    | cons b bs =>
      simp only [codesLt, Bool.or_eq_false_iff, Bool.and_eq_false_iff, decide_eq_false_iff_not,
        Nat.not_lt] at h h'
      obtain rfl : a = b := Nat.le_antisymm h'.1 h.1
      rw [ih (h.2.resolve_left fun hne => hne rfl) (h'.2.resolve_left fun hne => hne rfl)]

theorem codesLt_trans_false {as bs cs : List Nat} (h : codesLt bs as = false)
    (h' : codesLt cs bs = false) : codesLt cs as = false := by
  induction as generalizing bs cs with
  | nil => cases cs <;> rfl
  | cons a as ih =>
    cases bs with
    | nil => exact nomatch h
    | cons b bs =>
      cases cs with
      | nil => exact nomatch h'
      | cons c cs =>
        simp only [codesLt, Bool.or_eq_false_iff, Bool.and_eq_false_iff, decide_eq_false_iff_not,
          Nat.not_lt] at h h' ⊢
        refine ⟨Nat.le_trans h.1 h'.1, ?_⟩
        rcases h.2 with hne | hlt
        · exact .inl (by omega)
        · rcases h'.2 with hne | hlt'
          · exact .inl (by omega)
          · exact .inr (ih hlt hlt')

theorem digitCodes_lt {w m n : Nat} (h : m < n) (hn : n < 10 ^ w) :
    codesLt (digitCodes w m) (digitCodes w n) = true := by
  induction w generalizing m n with
  | zero =>
    rw [Nat.pow_zero] at hn
    omega
  | succ w ih =>
    rw [digitCodes, digitCodes]
    by_cases hdiv : m / 10 < n / 10
    · have hlen : (digitCodes w (m / 10)).length = (digitCodes w (n / 10)).length := by
        rw [length_digitCodes, length_digitCodes]
      refine codesLt_append hlen (ih hdiv ?_) _ _
      rw [Nat.div_lt_iff_lt_mul (by decide), ← Nat.pow_succ]
      exact hn
    · have heq : m / 10 = n / 10 := by omega
      have hlast : m % 10 < n % 10 := by omega
      rw [heq, codesLt_append_left]
      simp [codesLt, hlast]

/-- Names that differ only in a padded number are in the order of the numbers. -/
theorem paddedName_le {w m n : Nat} (h : m < n) (hn : n < 10 ^ (w + 1)) (front back : String) :
    le (front ++ padDigits (w + 1) m ++ back) (front ++ padDigits (w + 1) n ++ back) = true := by
  rw [le, Bool.not_eq_true']
  refine codesLt_asymm ?_
  rw [utf16_append, utf16_append, utf16_append, utf16_append, utf16_padDigits (h.trans hn),
    utf16_padDigits hn, List.append_assoc, List.append_assoc, codesLt_append_left]
  exact codesLt_append (by rw [length_digitCodes, length_digitCodes]) (digitCodes_lt h hn) _ _

end KirkForge.Text

/-! ### Times as texts -/

namespace KirkForge

/-- A time in UTC by its parts. -/
structure UtcTime where
  year : Int
  month : Nat
  day : Nat
  hour : Nat
  minute : Nat
  second : Nat
  milli : Nat
  deriving DecidableEq, Repr

namespace UtcTime

/-- Four digits, or six and a sign. -/
def yearText (year : Int) : String :=
  if 0 ≤ year ∧ year ≤ 9999 then Text.padDigits 4 year.toNat
  else (if year < 0 then "-" else "+") ++ Text.padDigits 6 year.natAbs

def dateText (t : UtcTime) : String :=
  yearText t.year ++ "-" ++ Text.padDigits 2 t.month ++ "-" ++ Text.padDigits 2 t.day ++ "T"

/-- `date.toISOString()` -/
def toISOString (t : UtcTime) : String :=
  dateText t ++ Text.padDigits 2 t.hour ++ ":" ++ Text.padDigits 2 t.minute ++ ":" ++
    Text.padDigits 2 t.second ++ "." ++ Text.padDigits 3 t.milli ++ "Z"

example : toISOString ⟨2024, 1, 31, 9, 5, 0, 7⟩ = "2024-01-31T09:05:00.007Z" := by decide

def colons (text : String) : Nat := text.toList.count ':'

theorem colons_append (s t : String) : colons (s ++ t) = colons s + colons t := by
  rw [colons, String.toList_append, List.count_append]
  rfl

theorem colons_padDigits (width n : Nat) : colons (Text.padDigits width n) = 0 := by
  rw [colons, List.count_eq_zero]
  intro hmem
  rw [Text.padDigits, String.toList_ofList, List.mem_append] at hmem
  rcases hmem with hmem | hmem
  · exact absurd (List.eq_of_mem_replicate hmem) (by decide)
  · have hdigit : (':' : Char).isDigit = true := by
      refine Nat.isDigit_of_mem_toDigits (b := 10) (n := n) (by decide) (by decide) ?_
      rwa [← Nat.toList_repr]
    exact absurd hdigit (by decide)

theorem colons_yearText (year : Int) : colons (yearText year) = 0 := by
  rw [yearText]
  split
  · exact colons_padDigits ..
  · rw [colons_append, colons_padDigits]
    split <;> decide

theorem colons_toISOString (t : UtcTime) : colons t.toISOString = 2 := by
  have hcolon : colons ":" = 1 := by decide
  have hrest : colons "-" = 0 ∧ colons "T" = 0 ∧ colons "." = 0 ∧ colons "Z" = 0 := by decide
  simp only [toISOString, dateText, colons_append, colons_padDigits, colons_yearText, hcolon, hrest]

end UtcTime

end KirkForge
