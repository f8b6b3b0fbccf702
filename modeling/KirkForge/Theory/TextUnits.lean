import KirkForge.Theory.Encoding
import KirkForge.Theory.JsonText

/-!
# Code units

The length of a string and its slices are counted in the units of UTF-16: a character beyond the
basic plane is a pair of two. Of a pair that is cut in two the half that is left is read as U+FFFD,
as everywhere in this development.
-/

namespace KirkForge.Text

/-- `s.length` -/
def units (s : String) : Nat := (utf16 s).length

/-- The first `n` units. -/
def takeUnits : Nat → List Char → List Char
  | 0, _ => []
  | _ + 1, [] => []
  | 1, c :: _ => if c.toNat < 0x10000 then [c] else ['\uFFFD']
  | n + 2, c :: cs =>
    if c.toNat < 0x10000 then c :: takeUnits (n + 1) cs else c :: takeUnits n cs

/-- `s.slice(0, n)` -/
def sliceUnits (n : Nat) (s : String) : String := String.ofList (takeUnits n s.toList)

example : sliceUnits 2 "a😀" = "a\uFFFD" ∧ sliceUnits 3 "a😀b" = "a😀" := by decide

theorem units_ofList_cons (c : Char) (cs : List Char) :
    units (String.ofList (c :: cs)) =
      (if c.toNat < 0x10000 then 1 else 2) + units (String.ofList cs) := by
  rw [units, units, utf16, utf16, String.toList_ofList, String.toList_ofList, List.flatMap_cons,
    List.length_append]
  split <;> rfl

/-- A string within the limit is not cut. -/
theorem sliceUnits_of_le {n : Nat} {s : String} (h : units s ≤ n) : sliceUnits n s = s := by
  suffices hchars : takeUnits n s.toList = s.toList by rw [sliceUnits, hchars, String.ofList_toList]
  rw [← String.ofList_toList (s := s)] at h
  generalize s.toList = cs at h
  fun_induction takeUnits n cs with
  | case1 cs =>
    cases cs with
    | nil => rfl
    | cons c cs =>
      rw [units_ofList_cons] at h
      split at h <;> omega
  | case2 n => rfl
  | case3 c cs hc =>
    rw [units_ofList_cons, if_pos hc] at h
    cases cs with
    | nil => rfl
    | cons d cs =>
      rw [units_ofList_cons] at h
      split at h <;> omega
  | case4 c cs hc =>
    rw [units_ofList_cons, if_neg hc] at h
    omega
  | case5 n c cs hc ih =>
    rw [units_ofList_cons, if_pos hc] at h
    rw [ih (by omega)]
  | case6 n c cs hc ih =>
    rw [units_ofList_cons, if_neg hc] at h
    rw [ih (by omega)]

/-- What is cut off ends with a part of the string, or with half a pair. -/
theorem takeUnits_cases (n : Nat) (cs : List Char) :
    takeUnits n cs <+: cs ∨ ∃ front, front <+: cs ∧ takeUnits n cs = front ++ ['\uFFFD'] := by
  fun_induction takeUnits n cs with
  | case1 cs => exact .inl List.nil_prefix
  | case2 n => exact .inl List.nil_prefix
  | case3 c cs => exact .inl (List.prefix_append [c] cs)
  | case4 c cs => exact .inr ⟨[], List.nil_prefix, rfl⟩
  | case5 n c cs _ ih | case6 n c cs _ ih =>
    rcases ih with h | ⟨front, hfront, h⟩
    · exact .inl ((List.prefix_cons_inj c).mpr h)
    · exact .inr ⟨c :: front, (List.prefix_cons_inj c).mpr hfront, by rw [h, List.cons_append]⟩

/-! ### Units put together -/

theorem chars_pair {n : Nat} (h : 0x10000 ≤ n) (hvalid : n < 0x110000) (rest : List Nat) :
    Json.chars ((0xD800 + (n - 0x10000) / 0x400) :: (0xDC00 + (n - 0x10000) % 0x400) :: rest) =
      Char.ofNat n :: Json.chars rest := by
  have hhigh : Json.isHigh (0xD800 + (n - 0x10000) / 0x400) = true := by
    simp only [Json.isHigh, Bool.and_eq_true, decide_eq_true_eq]
    omega
  have hlow : Json.isLow (0xDC00 + (n - 0x10000) % 0x400) = true := by
    simp only [Json.isLow, Bool.and_eq_true, decide_eq_true_eq]
    omega
  have hn : 0x10000 + (0xD800 + (n - 0x10000) / 0x400 - 0xD800) * 0x400 +
      (0xDC00 + (n - 0x10000) % 0x400 - 0xDC00) = n := by omega
  rw [Json.chars, hhigh, hlow, hn]
  rfl

theorem chars_single (c : Char) (rest : List Nat) :
    Json.chars (c.toNat :: rest) = c :: Json.chars rest := by
  obtain ⟨hhigh, hlow⟩ := Json.isHigh_isLow_toNat c
  cases rest <;> simp [Json.chars, hhigh, hlow]

/-- The units of a text are put together to its characters. -/
theorem chars_utf16 (s : String) : Json.chars (utf16 s) = s.toList := by
  rw [utf16]
  induction s.toList with
  | nil => rfl
  | cons c cs ih =>
    rw [List.flatMap_cons]
    split
    · exact (chars_single c _).trans (congrArg (c :: ·) ih)
    · next hc =>
      have hvalid : c.toNat < 0x110000 := by
        have hscalar := Encoding.toNat_scalar c
        omega
      rw [List.cons_append, List.singleton_append, chars_pair (Nat.not_lt.mp hc) hvalid,
        Char.ofNat_toNat, ih]

end KirkForge.Text
