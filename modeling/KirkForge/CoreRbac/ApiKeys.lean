import KirkForge.CoreRbac.Rbac
import KirkForge.Theory.TextUnits
import Mathlib.Data.List.TakeWhile

/-!
# API keys

`actorFromApiKey` (`core-rbac/src/index.ts`) on all strings of the language, of which a surrogate
need not be paired. The bytes of token and key are padded with zeros in front, so NUL characters at
the start make no difference, and a surrogate without its other half is encoded as U+FFFD, whichever
it is. Any other difference is found (`acceptsOnlyKey_iff`).
-/

namespace KirkForge

/-- A string by its UTF-16 units. -/
structure JsString where
  units : List UInt16
  deriving DecidableEq, Repr

namespace JsString

/-- `s.toWellFormed()`, which is also what the UTF-8 encoder reads. -/
def toWellFormed (s : JsString) : String := String.ofList (Json.chars (s.units.map UInt16.toNat))

def ofString (s : String) : JsString := ⟨(Text.utf16 s).map UInt16.ofNat⟩

theorem toNat_ofNat_utf16 (s : String) :
    ((Text.utf16 s).map UInt16.ofNat).map UInt16.toNat = Text.utf16 s := by
  rw [List.map_map]
  refine (List.map_congr_left fun n hn => ?_).trans (List.map_id _)
  have hlt : n < 2 ^ 16 := by
    obtain ⟨c, -, hc⟩ := List.mem_flatMap.mp hn
    have hscalar := Encoding.toNat_scalar c
    split at hc
    · rw [List.mem_singleton.mp hc]
      assumption
    · simp only [List.mem_cons, List.not_mem_nil, or_false] at hc
      omega
  exact UInt16.toNat_ofNat_of_lt' hlt

@[simp] theorem toWellFormed_ofString (s : String) : (ofString s).toWellFormed = s := by
  rw [toWellFormed, ofString, toNat_ofNat_utf16, Text.chars_utf16, String.ofList_toList]

@[simp] theorem units_ofString (s : String) : (ofString s).units = [] ↔ s = "" := by
  constructor
  · intro h
    rw [← toWellFormed_ofString s, toWellFormed, h]
    rfl
  · rintro rfl
    rfl

/-- `Buffer.from(s, "utf-8")` -/
def utf8 (s : JsString) : List UInt8 := s.toWellFormed.toUTF8.toList

end JsString

/-! ### Bytes -/

/-- The bytes without the zeros at the start. -/
def stripZeros (bytes : List UInt8) : List UInt8 := bytes.dropWhile (· = 0)

theorem stripZeros_padded (length : Nat) (bytes : List UInt8) :
    stripZeros (padded length bytes) = stripZeros bytes := by
  rw [padded, stripZeros, List.dropWhile_append_of_pos]
  · rfl
  · intro b hb
    rw [List.eq_of_mem_replicate hb]
    rfl

/-- Padded bytes are zeros, and the bytes without the zeros at the start. -/
theorem padded_eq {length : Nat} {bytes : List UInt8} (h : bytes.length ≤ length) :
    padded length bytes =
      List.replicate (length - (stripZeros bytes).length) 0 ++ stripZeros bytes := by
  have hzeros : bytes.takeWhile (· = 0) =
      List.replicate (bytes.takeWhile (· = 0)).length 0 := by
    refine List.eq_replicate_length.mpr fun b hb => ?_
    have hzero := List.mem_takeWhile_imp hb
    exact of_decide_eq_true hzero
  have hsplit : bytes = List.replicate (bytes.takeWhile (· = 0)).length 0 ++ stripZeros bytes := by
    rw [← hzeros]
    exact List.takeWhile_append_dropWhile.symm
  have hlength := congrArg List.length hsplit
  rw [List.length_append, List.length_replicate] at hlength
  conv_lhs => rw [padded, hsplit, ← List.append_assoc, ← List.replicate_add]
  congr 2
  rw [List.length_append, List.length_replicate]
  omega

theorem padded_eq_iff (a b : List UInt8) :
    padded (max a.length b.length) a = padded (max a.length b.length) b ↔
      stripZeros a = stripZeros b := by
  constructor
  · intro h
    rw [← stripZeros_padded (max a.length b.length) a, h, stripZeros_padded]
  · intro h
    rw [padded_eq (Nat.le_max_left ..), padded_eq (Nat.le_max_right ..), h]

/-- A character other than NUL has no encoding that starts with a zero. -/
theorem utf8EncodeChar_ne_zero {c : Char} (hc : c ≠ '\x00') :
    ∃ b bytes, String.utf8EncodeChar c = b :: bytes ∧ b ≠ 0 := by
  have hpos : c.toNat ≠ 0 := fun h => hc (Char.toNat_inj.mp h)
  have hne {n : Nat} (hn : 0 < n) (hlt : n < 256) : UInt8.ofNat n ≠ 0 := by
    intro h
    have hzero := congrArg UInt8.toNat h
    rw [UInt8.toNat_ofNat_of_lt' hlt] at hzero
    exact Nat.ne_of_gt hn hzero
  rw [String.utf8EncodeChar]
  have hval : c.val.toNat = c.toNat := rfl
  rw [hval]
  have hscalar := Encoding.toNat_scalar c
  split
  · exact ⟨_, _, rfl, hne (Nat.pos_of_ne_zero hpos) (by omega)⟩
  · split
    · exact ⟨_, _, rfl, hne (by omega) (by omega)⟩
    · split
      · exact ⟨_, _, rfl, hne (by omega) (by omega)⟩
      · exact ⟨_, _, rfl, hne (by omega) (by omega)⟩

/-- The characters without the NULs at the start. -/
def stripNuls (s : String) : String := String.ofList (s.toList.dropWhile (· = '\x00'))

theorem stripZeros_toUTF8 (s : String) :
    stripZeros s.toUTF8.toList = (stripNuls s).toUTF8.toList := by
  rw [Encoding.toList_toUTF8, Encoding.toList_toUTF8, stripNuls, String.toList_ofList]
  induction s.toList with
  | nil => rfl
  | cons c cs ih =>
    rw [List.flatMap_cons]
    by_cases hc : c = '\x00'
    · subst hc
      rw [List.dropWhile_cons_of_pos (by decide), ← ih]
      rfl
    · obtain ⟨b, bytes, hbytes, hb⟩ := utf8EncodeChar_ne_zero hc
      rw [List.dropWhile_cons_of_neg (by simpa using hc), List.flatMap_cons, hbytes, stripZeros,
        List.cons_append, List.dropWhile_cons_of_neg (by simpa using hb)]

theorem toUTF8_inj {s t : String} : s.toUTF8.toList = t.toUTF8.toList ↔ s = t := by
  constructor
  · intro h
    have hbytes (bytes : ByteArray) : bytes.toList = bytes.data.toList := by
      rw [ByteArray.toList, Encoding.toList_loop]
      rfl
    rw [hbytes, hbytes] at h
    exact String.toByteArray_inj.mp (ByteArray.ext (Array.toList_inj.mp h))
  · rintro rfl
    rfl

/-! ### The check -/

namespace ApiKey

def actorFromApiKey (token expectedApiKey : JsString) (role : Role) (tenantId verifiedAt : String) :
    Except AuthError Actor :=
  if token.units = [] ∨ expectedApiKey.units = [] then
    .error { code := "UNAUTHORIZED", message := "Missing token or API key" }
  else
    let tokenBuf := token.utf8
    let keyBuf := expectedApiKey.utf8
    let maxLen := max tokenBuf.length keyBuf.length
    if padded maxLen tokenBuf ≠ padded maxLen keyBuf then
      .error { code := "INVALID_TOKEN", message := "Invalid token" }
    else .ok { id := "api-key:" ++ role.name, role, tenantId, authMethod := .apiKey, verifiedAt }

/-- On texts, with the role and tenant that a caller leaves out, this is the check of the model's
`KirkForge.actorFromApiKey`. -/
theorem actorFromApiKey_ofString (token expectedApiKey verifiedAt : String) :
    actorFromApiKey (.ofString token) (.ofString expectedApiKey) .operator "" verifiedAt =
      KirkForge.actorFromApiKey token expectedApiKey verifiedAt := by
  simp only [actorFromApiKey, KirkForge.actorFromApiKey, JsString.units_ofString, JsString.utf8,
    JsString.toWellFormed_ofString]

/-- What the check sees of a string: unpaired surrogates are U+FFFD, and NULs at the start are not
there. -/
def seen (s : JsString) : String := stripNuls s.toWellFormed

variable {token expectedApiKey : JsString} {role : Role} {tenantId verifiedAt : String}

def accepts (token expectedApiKey : JsString) (role : Role) (tenantId verifiedAt : String) : Prop :=
  ∃ actor, actorFromApiKey token expectedApiKey role tenantId verifiedAt = .ok actor

theorem accepts_iff : accepts token expectedApiKey role tenantId verifiedAt ↔
    token.units ≠ [] ∧ expectedApiKey.units ≠ [] ∧ seen token = seen expectedApiKey := by
  have hseen : padded (max token.utf8.length expectedApiKey.utf8.length) token.utf8 =
      padded (max token.utf8.length expectedApiKey.utf8.length) expectedApiKey.utf8 ↔
        seen token = seen expectedApiKey := by
    rw [padded_eq_iff, JsString.utf8, JsString.utf8, stripZeros_toUTF8, stripZeros_toUTF8,
      toUTF8_inj, seen, seen]
  rw [accepts, actorFromApiKey]
  split
  · next hempty =>
    constructor
    · rintro ⟨actor, h⟩
      cases h
    · rintro ⟨htoken, hkey, -⟩
      exact absurd hempty (not_or.mpr ⟨htoken, hkey⟩)
  · next hempty =>
    rw [not_or] at hempty
    show (∃ actor, (if padded _ _ ≠ padded _ _ then _ else _) = Except.ok actor) ↔ _
    split
    · next hne =>
      constructor
      · rintro ⟨actor, h⟩
        cases h
      · rintro ⟨-, -, hsame⟩
        exact absurd (hseen.mpr hsame) hne
    · next hsame =>
      have hboth := hseen.mp (not_not.mp hsame)
      exact ⟨fun _ => ⟨hempty.1, hempty.2, hboth⟩, fun _ => ⟨_, rfl⟩⟩

/-- The key and nothing else is accepted, unless the token differs from the key only in what the
check does not see. -/
theorem acceptsOnlyKey_iff (token expectedApiKey : JsString) (role : Role)
    (tenantId verifiedAt : String) (hkey : expectedApiKey.units ≠ []) :
    (accepts token expectedApiKey role tenantId verifiedAt ↔ token = expectedApiKey) ↔
      token = expectedApiKey ∨ token.units = [] ∨ seen token ≠ seen expectedApiKey := by
  rw [accepts_iff]
  by_cases hsame : token = expectedApiKey
  · subst hsame
    simp [hkey]
  · by_cases hempty : token.units = []
    · simp [hempty, hsame]
    · simp [hempty, hkey, hsame]

/-- A NUL in front of the key is not seen, and neither is which half of a pair stands alone. -/
theorem unseen_differences_accepted :
    (accepts ⟨[0, 107]⟩ ⟨[107]⟩ .operator "" "" ∧ (⟨[0, 107]⟩ : JsString) ≠ ⟨[107]⟩) ∧
      (accepts ⟨[0xD800]⟩ ⟨[0xDBFF]⟩ .operator "" "" ∧ (⟨[0xD800]⟩ : JsString) ≠ ⟨[0xDBFF]⟩) := by
  refine ⟨⟨accepts_iff.mpr ?_, by decide⟩, ⟨accepts_iff.mpr ?_, by decide⟩⟩
  · decide
  · decide

theorem acceptsOnlyKey_of_other :
    (accepts ⟨[107, 0]⟩ ⟨[107]⟩ .operator "" "" ↔ (⟨[107, 0]⟩ : JsString) = ⟨[107]⟩) :=
  (acceptsOnlyKey_iff ⟨[107, 0]⟩ ⟨[107]⟩ .operator "" "" (by decide)).mpr (by decide)

end ApiKey

end KirkForge
