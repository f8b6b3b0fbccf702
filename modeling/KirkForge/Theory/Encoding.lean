import Mathlib.Tactic.SplitIfs

/-!
# Base64 and UTF-8

The two decoders behind `Buffer.from(s, "base64").toString("utf-8")`. Both are total: a base64 digit
that does not complete a byte is dropped, and every maximal part of an ill-formed UTF-8 sequence is
replaced by U+FFFD. A byte is a natural number below 256. `encodeBase64` is `toString("base64")`,
and its text decodes to the bytes; the UTF-8 bytes of a text decode to the text.
-/

namespace KirkForge.Encoding

/-! ### Base64 -/

def base64Digit (c : Char) : Option Nat :=
  if 'A' ≤ c ∧ c ≤ 'Z' then some (c.toNat - 'A'.toNat)
  else if 'a' ≤ c ∧ c ≤ 'z' then some (c.toNat - 'a'.toNat + 26)
  else if '0' ≤ c ∧ c ≤ '9' then some (c.toNat - '0'.toNat + 52)
  else if c = '+' then some 62
  else if c = '/' then some 63
  else none

/-- `/^[A-Za-z0-9+\/]*={0,2}$/.test(s)`. -/
def isBase64 (s : String) : Bool :=
  let padding := s.toList.dropWhile fun c => (base64Digit c).isSome
  padding = [] || padding = ['='] || padding = ['=', '=']

def bytesOfDigits : List Nat → List Nat
  | a :: b :: c :: d :: digits =>
    (a * 4 + b / 16) :: (b % 16 * 16 + c / 4) :: (c % 4 * 64 + d) :: bytesOfDigits digits
  | [a, b, c] => [a * 4 + b / 16, b % 16 * 16 + c / 4]
  | [a, b] => [a * 4 + b / 16]
  | _ => []

/-- The bytes of a text that `isBase64` accepts. -/
def decodeBase64 (s : String) : List Nat := bytesOfDigits (s.toList.filterMap base64Digit)

def digitsOfBytes : List Nat → List Nat
  | a :: b :: c :: bytes =>
    (a / 4) :: (a % 4 * 16 + b / 16) :: (b % 16 * 4 + c / 64) :: (c % 64) :: digitsOfBytes bytes
  | [a, b] => [a / 4, a % 4 * 16 + b / 16, b % 16 * 4]
  | [a] => [a / 4, a % 4 * 16]
  | [] => []

def base64Char (d : Nat) : Char :=
  "ABCDEFGHIJKLMNOPQRSTUVWXYZabcdefghijklmnopqrstuvwxyz0123456789+/".toList.getD d 'A'

/-- The digits of the bytes, and the padding to a multiple of four characters. -/
def encodeBase64 (bytes : List Nat) : String :=
  String.ofList ((digitsOfBytes bytes).map base64Char ++
    List.replicate ((3 - bytes.length % 3) % 3) '=')

example : encodeBase64 [195, 169, 10, 101] = "w6kKZQ==" := by decide +kernel

theorem base64Digit_base64Char {d : Nat} (h : d < 64) : base64Digit (base64Char d) = some d := by
  have hall : ∀ d < 64, base64Digit (base64Char d) = some d := by decide +kernel
  exact hall d h

theorem digitsOfBytes_lt {bytes : List Nat} (h : ∀ b ∈ bytes, b < 256) :
    ∀ d ∈ digitsOfBytes bytes, d < 64 := by
  fun_induction digitsOfBytes bytes with
  | case1 a b c bytes ih =>
    simp only [List.forall_mem_cons] at h ⊢
    exact ⟨by omega, by omega, by omega, by omega, ih h.2.2.2⟩
  | case2 a b =>
    simp only [List.forall_mem_cons] at h ⊢
    exact ⟨by omega, by omega, by omega, List.forall_mem_nil _⟩
  | case3 a =>
    simp only [List.forall_mem_cons] at h ⊢
    exact ⟨by omega, by omega, List.forall_mem_nil _⟩
  | case4 => exact List.forall_mem_nil _

theorem bytesOfDigits_digitsOfBytes {bytes : List Nat} (h : ∀ b ∈ bytes, b < 256) :
    bytesOfDigits (digitsOfBytes bytes) = bytes := by
  fun_induction digitsOfBytes bytes with
  | case1 a b c bytes ih =>
    simp only [List.forall_mem_cons] at h
    rw [bytesOfDigits, ih h.2.2.2]
    have ha : a / 4 * 4 + (a % 4 * 16 + b / 16) / 16 = a := by omega
    have hb : (a % 4 * 16 + b / 16) % 16 * 16 + (b % 16 * 4 + c / 64) / 4 = b := by omega
    have hc : (b % 16 * 4 + c / 64) % 4 * 64 + c % 64 = c := by omega
    rw [ha, hb, hc]
  | case2 a b =>
    simp only [List.forall_mem_cons] at h
    have ha : a / 4 * 4 + (a % 4 * 16 + b / 16) / 16 = a := by omega
    have hb : (a % 4 * 16 + b / 16) % 16 * 16 + b % 16 * 4 / 4 = b := by omega
    rw [bytesOfDigits, ha, hb]
  | case3 a =>
    have ha : a / 4 * 4 + a % 4 * 16 / 16 = a := by omega
    rw [bytesOfDigits, ha]
  | case4 => rfl

/-- Every character of the text is a digit or padding. -/
theorem mem_encodeBase64 {bytes : List Nat} (h : ∀ b ∈ bytes, b < 256) {c : Char}
    (hc : c ∈ (encodeBase64 bytes).toList) : (base64Digit c).isSome = true ∨ c = '=' := by
  rw [encodeBase64, String.toList_ofList, List.mem_append, List.mem_map] at hc
  rcases hc with ⟨d, hd, rfl⟩ | hc
  · rw [base64Digit_base64Char (digitsOfBytes_lt h d hd)]
    exact .inl rfl
  · exact .inr (List.eq_of_mem_replicate hc)

theorem decodeBase64_encodeBase64 {bytes : List Nat} (h : ∀ b ∈ bytes, b < 256) :
    decodeBase64 (encodeBase64 bytes) = bytes := by
  have hdigits (ds : List Nat) (hds : ∀ d ∈ ds, d < 64) :
      (ds.map base64Char).filterMap base64Digit = ds := by
    induction ds with
    | nil => rfl
    | cons d ds ih =>
      obtain ⟨hd, hds⟩ := List.forall_mem_cons.mp hds
      rw [List.map_cons, List.filterMap_cons, base64Digit_base64Char hd, ih hds]
  have hpadding (k : Nat) : (List.replicate k '=').filterMap base64Digit = [] := by
    refine List.filterMap_eq_nil_iff.mpr fun c hc => ?_
    rw [List.eq_of_mem_replicate hc]
    decide
  rw [decodeBase64, encodeBase64, String.toList_ofList, List.filterMap_append,
    hdigits _ (digitsOfBytes_lt h), hpadding, List.append_nil, bytesOfDigits_digitsOfBytes h]

theorem isBase64_encodeBase64 {bytes : List Nat} (h : ∀ b ∈ bytes, b < 256) :
    isBase64 (encodeBase64 bytes) = true := by
  have hdigits : ∀ c ∈ (digitsOfBytes bytes).map base64Char, (base64Digit c).isSome = true := by
    intro c hc
    obtain ⟨d, hd, rfl⟩ := List.mem_map.mp hc
    rw [base64Digit_base64Char (digitsOfBytes_lt h d hd)]
    rfl
  have hpadding : ∀ k < 3, isBase64 (String.ofList (List.replicate k '=')) = true := by
    decide +kernel
  have hlt : (3 - bytes.length % 3) % 3 < 3 := Nat.mod_lt _ (by decide)
  have hpadding := hpadding _ hlt
  rw [isBase64, String.toList_ofList] at hpadding
  rw [isBase64, encodeBase64, String.toList_ofList, List.dropWhile_append_of_pos hdigits]
  exact hpadding

/-! ### UTF-8 -/

/-- In the middle of a character: how many bytes are missing, the bounds of the next one, and the
bits so far. -/
structure Pending where
  needed : Nat
  lower : Nat
  upper : Nat
  bits : Nat

/-- The characters and the pending rest that a byte gives between two characters. -/
def firstByte (b : Nat) : List Char × Option Pending :=
  if b < 0x80 then ([Char.ofNat b], none)
  else if b < 0xC2 then (['\uFFFD'], none)
  else if b < 0xE0 then ([], some ⟨1, 0x80, 0xBF, b - 0xC0⟩)
  else if b < 0xF0 then
    ([], some ⟨2, if b = 0xE0 then 0xA0 else 0x80, if b = 0xED then 0x9F else 0xBF, b - 0xE0⟩)
  else if b < 0xF5 then
    ([], some ⟨3, if b = 0xF0 then 0x90 else 0x80, if b = 0xF4 then 0x8F else 0xBF, b - 0xF0⟩)
  else (['\uFFFD'], none)

def nextByte (b : Nat) : Option Pending → List Char × Option Pending
  | none => firstByte b
  | some p =>
    if p.lower ≤ b ∧ b ≤ p.upper then
      let bits := p.bits * 64 + (b - 0x80)
      if p.needed = 1 then ([Char.ofNat bits], none)
      else ([], some ⟨p.needed - 1, 0x80, 0xBF, bits⟩)
    else
      let r := firstByte b
      ('\uFFFD' :: r.1, r.2)

def decodeFrom : Option Pending → List Nat → List Char
  | none, [] => []
  | some _, [] => ['\uFFFD']
  | p, b :: bytes =>
    let r := nextByte b p
    r.1 ++ decodeFrom r.2 bytes

def decodeUtf8 (bytes : List Nat) : String := String.ofList (decodeFrom none bytes)

example : decodeUtf8 (decodeBase64 "w6kKZQ==") = "é\ne" := by decide +kernel

def encodeChar (c : Char) : List Nat :=
  let n := c.toNat
  if n < 0x80 then [n]
  else if n < 0x800 then [0xC0 + n / 64, 0x80 + n % 64]
  else if n < 0x10000 then [0xE0 + n / 4096, 0x80 + n / 64 % 64, 0x80 + n % 64]
  else [0xF0 + n / 262144, 0x80 + n / 4096 % 64, 0x80 + n / 64 % 64, 0x80 + n % 64]

/-- The bytes of `Buffer.from(s, "utf-8")`. -/
def encodeUtf8 (s : String) : List Nat := s.toList.flatMap encodeChar

/-- A scalar value is below the surrogates, or between them and the end of Unicode. -/
theorem toNat_scalar (c : Char) : c.toNat < 0xD800 ∨ 0xDFFF < c.toNat ∧ c.toNat < 0x110000 :=
  c.valid

theorem mem_encodeChar {c : Char} {b : Nat} (hb : b ∈ encodeChar c) : b < 256 := by
  have hscalar := toNat_scalar c
  simp only [encodeChar] at hb
  split_ifs at hb <;> simp only [List.mem_cons, List.not_mem_nil, or_false] at hb <;> omega

theorem mem_encodeUtf8 {s : String} : ∀ b ∈ encodeUtf8 s, b < 256 := by
  intro b hb
  obtain ⟨c, -, hc⟩ := List.mem_flatMap.mp hb
  exact mem_encodeChar hc

theorem decodeFrom_append {p p' : Option Pending} {b : Nat} {cs : List Char} {bytes : List Nat}
    (h : nextByte b p = (cs, p')) : decodeFrom p (b :: bytes) = cs ++ decodeFrom p' bytes := by
  cases p <;> rw [decodeFrom, h]

/-- A byte in the middle of a character. -/
theorem nextByte_more {needed lower upper bits b : Nat} (hlower : lower ≤ b) (hupper : b ≤ upper) :
    nextByte b (some ⟨needed + 2, lower, upper, bits⟩) =
      ([], some ⟨needed + 1, 0x80, 0xBF, bits * 64 + (b - 0x80)⟩) := by
  rw [nextByte]
  dsimp only
  rw [if_pos ⟨hlower, hupper⟩, if_neg (Nat.succ_succ_ne_one needed)]
  rfl

/-- The last byte of a character. -/
theorem nextByte_last {lower upper bits b : Nat} (hlower : lower ≤ b) (hupper : b ≤ upper) :
    nextByte b (some ⟨1, lower, upper, bits⟩) =
      ([Char.ofNat (bits * 64 + (b - 0x80))], none) := by
  rw [nextByte]
  dsimp only
  rw [if_pos ⟨hlower, hupper⟩, if_pos rfl]

/-- The first of two bytes. -/
theorem nextByte_two {n : Nat} (h : ¬n < 0x80) (h' : n < 0x800) :
    nextByte (0xC0 + n / 64) none = ([], some ⟨1, 0x80, 0xBF, n / 64⟩) := by
  rw [nextByte, firstByte, if_neg (by omega), if_neg (by omega), if_pos (by omega),
    Nat.add_sub_cancel_left]

/-- The first of three bytes bounds the second one: no shorter form is left, and no surrogate. -/
theorem nextByte_three {n : Nat} (h : n < 0x10000) :
    nextByte (0xE0 + n / 4096) none = ([], some
      ⟨2, if 0xE0 + n / 4096 = 0xE0 then 0xA0 else 0x80,
        if 0xE0 + n / 4096 = 0xED then 0x9F else 0xBF, n / 4096⟩) := by
  rw [nextByte, firstByte, if_neg (by omega), if_neg (by omega), if_neg (by omega),
    if_pos (by omega), Nat.add_sub_cancel_left]

theorem nextByte_four {n : Nat} (h : n < 0x110000) :
    nextByte (0xF0 + n / 262144) none = ([], some
      ⟨3, if 0xF0 + n / 262144 = 0xF0 then 0x90 else 0x80,
        if 0xF0 + n / 262144 = 0xF4 then 0x8F else 0xBF, n / 262144⟩) := by
  rw [nextByte, firstByte, if_neg (by omega), if_neg (by omega), if_neg (by omega),
    if_neg (by omega), if_pos (by omega), Nat.add_sub_cancel_left]

theorem decodeFrom_encodeChar (c : Char) (bytes : List Nat) :
    decodeFrom none (encodeChar c ++ bytes) = c :: decodeFrom none bytes := by
  have hscalar := toNat_scalar c
  have hchar : Char.ofNat c.toNat = c := Char.ofNat_toNat c
  simp only [encodeChar]
  generalize c.toNat = n at hscalar hchar
  -- the last byte completes the number of the character
  have hlast {lower upper bits : Nat} (hlower : lower ≤ 0x80 + n % 64)
      (hupper : 0x80 + n % 64 ≤ upper) (hbits : bits = n / 64) :
      nextByte (0x80 + n % 64) (some ⟨1, lower, upper, bits⟩) = ([c], none) := by
    have hn : bits * 64 + (0x80 + n % 64 - 0x80) = n := by omega
    rw [nextByte_last hlower hupper, hn, hchar]
  split_ifs with h1 h2 h3
  · have hfirst : nextByte n none = ([c], none) := by
      rw [nextByte, firstByte, if_pos h1, hchar]
    exact decodeFrom_append hfirst
  · apply (decodeFrom_append (nextByte_two h1 h2)).trans
    exact decodeFrom_append (hlast (by omega) (by omega) rfl)
  · apply (decodeFrom_append (nextByte_three h3)).trans
    apply (decodeFrom_append (nextByte_more (by split_ifs <;> omega) (by split_ifs <;> omega))).trans
    exact decodeFrom_append (hlast (by omega) (by omega) (by omega))
  · apply (decodeFrom_append (nextByte_four (by omega))).trans
    apply (decodeFrom_append (nextByte_more (by split_ifs <;> omega) (by split_ifs <;> omega))).trans
    apply (decodeFrom_append (nextByte_more (by omega) (by omega))).trans
    exact decodeFrom_append (hlast (by omega) (by omega) (by omega))

theorem decodeUtf8_encodeUtf8 (s : String) : decodeUtf8 (encodeUtf8 s) = s := by
  have hchars (cs : List Char) : decodeFrom none (cs.flatMap encodeChar) = cs := by
    induction cs with
    | nil => rfl
    | cons c cs ih => rw [List.flatMap_cons, decodeFrom_encodeChar, ih]
  rw [decodeUtf8, encodeUtf8, hchars, String.ofList_toList]

/-! ### Cut off texts -/

/-- What is there of a character that is cut off. -/
theorem decodeFrom_cut_char {c : Char} {front back : List Nat} (hc : encodeChar c = front ++ back)
    (hback : back ≠ []) : ∃ k, decodeFrom none front = List.replicate k '\uFFFD' := by
  have hscalar := toNat_scalar c
  have hlength : front.length < (encodeChar c).length := by
    rw [hc, List.length_append]
    exact Nat.lt_add_of_pos_right (List.length_pos_iff.mpr hback)
  have hfront : front = (encodeChar c).take front.length := by rw [hc, List.take_left]
  generalize front.length = n at hfront hlength
  obtain rfl := hfront
  cases n with
  | zero => exact ⟨0, rfl⟩
  | succ n =>
    refine ⟨1, ?_⟩
    simp only [encodeChar] at hlength ⊢
    generalize c.toNat = m at hscalar hlength ⊢
    split_ifs at hlength ⊢ with h1 h2 h3
    · exact absurd hlength (by simp)
    · obtain rfl : n = 0 := Nat.lt_one_iff.mp (Nat.succ_lt_succ_iff.mp hlength)
      exact decodeFrom_append (nextByte_two h1 h2)
    · apply (decodeFrom_append (nextByte_three h3)).trans
      match n, hlength with
      | 0, _ => rfl
      | 1, _ =>
        exact decodeFrom_append (nextByte_more (by split_ifs <;> omega) (by split_ifs <;> omega))
    · apply (decodeFrom_append (nextByte_four (by omega))).trans
      match n, hlength with
      | 0, _ => rfl
      | 1, _ =>
        exact decodeFrom_append (nextByte_more (by split_ifs <;> omega) (by split_ifs <;> omega))
      | 2, _ =>
        apply (decodeFrom_append
          (nextByte_more (by split_ifs <;> omega) (by split_ifs <;> omega))).trans
        exact decodeFrom_append (nextByte_more (by omega) (by omega))

/-- A text that is cut off is decoded to a front of it, and to characters that stand for the bytes
that are there of the next one. -/
theorem decodeUtf8_cut {s : String} {n : Nat} (hn : n < (encodeUtf8 s).length) :
    ∃ front back k, s.toList = front ++ back ∧ back ≠ [] ∧
      decodeUtf8 ((encodeUtf8 s).take n) =
        String.ofList (front ++ List.replicate k '\uFFFD') := by
  have hchars (cs : List Char) (n : Nat) (hn : n < (cs.flatMap encodeChar).length) :
      ∃ front back k, cs = front ++ back ∧ back ≠ [] ∧
        decodeFrom none ((cs.flatMap encodeChar).take n) =
          front ++ List.replicate k '\uFFFD' := by
    induction cs generalizing n with
    | nil => exact absurd hn (Nat.not_lt_zero n)
    | cons c cs ih =>
      rw [List.flatMap_cons] at hn ⊢
      by_cases hchar : n < (encodeChar c).length
      · have hsplit := (List.take_append_drop n (encodeChar c)).symm
        have hdrop : (encodeChar c).drop n ≠ [] := by
          rwa [ne_eq, List.drop_eq_nil_iff, Nat.not_le]
        obtain ⟨k, hk⟩ := decodeFrom_cut_char hsplit hdrop
        refine ⟨[], c :: cs, k, rfl, List.cons_ne_nil c cs, ?_⟩
        rw [List.take_append_of_le_length (Nat.le_of_lt hchar), hk, List.nil_append]
      · obtain ⟨m, rfl⟩ := Nat.exists_eq_add_of_le (Nat.not_lt.mp hchar)
        rw [List.length_append, Nat.add_lt_add_iff_left] at hn
        obtain ⟨front, back, k, rfl, hback, hk⟩ := ih m hn
        refine ⟨c :: front, back, k, rfl, hback, ?_⟩
        rw [List.take_length_add_append, decodeFrom_encodeChar, hk, List.cons_append]
  obtain ⟨front, back, k, hs, hback, hk⟩ := hchars s.toList n hn
  exact ⟨front, back, k, hs, hback, by rw [decodeUtf8, encodeUtf8, hk]⟩

/-! ### Byte arrays -/

theorem toList_loop (bytes : ByteArray) (i : Nat) (front : List UInt8) :
    ByteArray.toList.loop bytes i front = front.reverse ++ bytes.data.toList.drop i := by
  fun_induction ByteArray.toList.loop bytes i front with
  | case1 i front hi ih =>
    rw [ih, List.reverse_cons, List.append_assoc, List.singleton_append]
    have hget : bytes.get! i = bytes.data.toList.get ⟨i, hi⟩ := getElem!_pos bytes.data i hi
    rw [List.drop_eq_getElem_cons hi, hget, List.get_eq_getElem]
  | case2 i front hi =>
    have hend : bytes.data.toList.length ≤ i := Nat.not_lt.mp hi
    rw [List.drop_eq_nil_of_le hend, List.append_nil]

theorem toList_toUTF8 (s : String) : s.toUTF8.toList = s.toList.flatMap String.utf8EncodeChar := by
  rw [ByteArray.toList, toList_loop, String.toUTF8_eq_toByteArray, ← String.utf8Encode_toList]
  simp [List.utf8Encode]

theorem map_toNat_utf8EncodeChar (c : Char) :
    (String.utf8EncodeChar c).map UInt8.toNat = encodeChar c := by
  have hscalar := toNat_scalar c
  simp only [String.utf8EncodeChar, encodeChar, Char.toNat] at hscalar ⊢
  split_ifs <;>
    simp only [List.map_cons, List.map_nil, UInt8.toNat_ofNat', List.cons.injEq, and_true] <;> omega

theorem encodeUtf8_eq (s : String) : encodeUtf8 s = s.toUTF8.toList.map UInt8.toNat := by
  rw [encodeUtf8, toList_toUTF8, List.map_flatMap, funext map_toNat_utf8EncodeChar]

/-- Bytes survive being read as a text exactly if they are UTF-8. -/
theorem toByteArray_decodeUtf8_iff (bytes : ByteArray) :
    (decodeUtf8 (bytes.toList.map UInt8.toNat)).toByteArray = bytes ↔ bytes.IsValidUTF8 := by
  constructor
  · intro h
    rw [← h]
    exact String.isValidUTF8 _
  · intro h
    have hencode := encodeUtf8_eq (String.ofByteArray bytes h)
    rw [String.toUTF8_eq_toByteArray] at hencode
    rw [← hencode, decodeUtf8_encodeUtf8]

end KirkForge.Encoding
