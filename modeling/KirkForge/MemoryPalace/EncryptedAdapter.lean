import KirkForge.CoreTenancy.TenantEncryption
import KirkForge.Theory.Json

/-!
# Encryption at rest

`EncryptedAdapter` (`memory-palace/src/encrypted-adapter.ts`) around an adapter of any kind. Writing
parses the encrypted properties as JSON, and a ciphertext is none: every write throws before the
inner adapter is called. What was stored in plain text comes back as it is.
-/

namespace KirkForge

/-- The digest that makes a key, beside the cipher. -/
structure RestCipher extends TenantCipher where
  sha256 : String → Bytes

/-- Base64 is written with the letters, the digits, `+`, `/` and `=`, and nothing is decrypted but
what the same key has encrypted. -/
structure RestCipher.Lawful (cipher : RestCipher) : Prop extends cipher.toKeyCipher.Lawful where
  base64_alphabet : ∀ bytes, ∀ c ∈ (cipher.base64 bytes).toList,
    (Encoding.base64Digit c).isSome = true ∨ c = '='
  authentic : ∀ {key iv tag encrypted text}, cipher.decrypt key iv tag encrypted = .ok text →
    cipher.encrypt key iv text = (encrypted, tag)

/-- An adapter with the state `σ`. -/
structure InnerAdapter (σ : Type) where
  write : σ → ReturnedObject → σ × Except String Unit
  read : σ → String → Except String (Option ReturnedObject)
  query : σ → MemoryQuery → Except String (List ReturnedObject)

/-- How a call ends: it throws or returns. -/
inductive CallEnd (α : Type)
  | threw (message : String)
  | returned (value : α)

namespace EncryptedAdapter

section
variable (cipher : RestCipher)

def deriveKey (rawKey : String) : Bytes := cipher.sha256 rawKey

def encrypt (plaintext : String) (key iv : Bytes) : String :=
  let r := cipher.encrypt key iv plaintext
  cipher.base64 iv ++ ":" ++ cipher.base64 r.2 ++ ":" ++ cipher.base64 r.1

def decrypt (ciphertext : String) (key : Bytes) : Except String String :=
  match Text.split ':' ciphertext with
  | [iv, tag, encrypted] =>
    cipher.decrypt key (cipher.fromBase64 iv) (cipher.fromBase64 tag)
      (cipher.fromBase64 encrypted)
  | _ => .error "Invalid encrypted payload format"

/-- `JSON.parse(text)` -/
def parseJson (text : String) : Except String JsValue :=
  match Json.parse text with
  | some j => .ok (JsValue.ofJson j)
  | none => .error (cipher.syntaxError text)

/-- `JSON.stringify(value)`; without a text there is nothing to decrypt. -/
def stringifyValue (value : JsValue) : Except String String :=
  match JsValue.toJson value with
  | some j => .ok (String.ofList (JsValue.stringify j))
  | none => .error "Cannot read properties of undefined (reading 'split')"

/-- The object in the form in which it is to be stored. -/
def encryptObject (key ivDescription ivProperties : Bytes) (obj : MemoryObject) :
    Except String ReturnedObject :=
  let properties := String.ofList (JsValue.stringify (.obj (JsValue.membersToJson obj.properties)))
  (parseJson cipher (encrypt cipher properties key ivProperties)).map fun properties =>
    { obj.returned with
      description := encrypt cipher obj.description key ivDescription
      properties }

/-- The `try` blocks of `read` and `query`. -/
def decryptObject (key : Bytes) (obj : ReturnedObject) : Except String ReturnedObject :=
  (decrypt cipher obj.description key).bind fun description =>
  (stringifyValue obj.properties).bind fun text =>
  (decrypt cipher text key).bind fun plain =>
  (parseJson cipher plain).map fun properties => { obj with description, properties }

/-- An object that cannot be decrypted is taken for unencrypted data. -/
def openObject (key : Bytes) (obj : ReturnedObject) : ReturnedObject :=
  match decryptObject cipher key obj with
  | .ok opened => opened
  | .error _ => obj

end

section
variable (cipher : RestCipher) {σ : Type} (inner : InnerAdapter σ) (encryptionKey : String)

def write (ivDescription ivProperties : Bytes) (obj : MemoryObject) (s : σ) :
    σ × CallEnd (Except String Unit) :=
  match encryptObject cipher (deriveKey cipher encryptionKey) ivDescription ivProperties obj with
  | .error message => (s, .threw message)
  | .ok encrypted =>
    let r := inner.write s encrypted
    (r.1, .returned r.2)

def read (s : σ) (id : String) : Except String (Option ReturnedObject) :=
  (inner.read s id).map fun found => found.map (openObject cipher (deriveKey cipher encryptionKey))

def query (s : σ) (q : MemoryQuery) : Except String (List ReturnedObject) :=
  (inner.query s q).map fun objects =>
    objects.map (openObject cipher (deriveKey cipher encryptionKey))

end

end EncryptedAdapter

end KirkForge

/-!
## What an encrypted adapter gives back

The ciphertext of the properties is handed to `JSON.parse`, which throws on it for every key and
object: base64 has no quotes or brackets, and a colon is no part of a literal or a number. So no
object gets to the inner adapter. Objects from before the encryption are not affected.
-/

namespace KirkForge.EncryptedAdapter

variable {cipher : RestCipher} {σ : Type} {inner : InnerAdapter σ}

theorem isPlain_of_base64 {c : Char}
    (h : (Encoding.base64Digit c).isSome = true ∨ c = '=') : Json.isPlain c = true := by
  by_contra hplain
  simp only [Json.isPlain, Json.isSpace, Bool.and_eq_true, Bool.not_eq_true', not_and_or,
    Bool.or_eq_false_iff, decide_eq_true_eq, decide_eq_false_iff_not, not_not] at hplain
  rcases hplain with ((rfl | rfl) | rfl) | ((rfl | rfl) | rfl) | rfl <;> revert h <;> decide

/-- A ciphertext is no JSON. -/
theorem parse_encrypt (hcipher : cipher.Lawful) (plaintext : String) (key iv : Bytes) :
    Json.parse (encrypt cipher plaintext key iv) = none := by
  have hbase64 (bytes : Bytes) : ∀ c ∈ (cipher.base64 bytes).toList, Json.isPlain c = true :=
    fun c hc => isPlain_of_base64 (hcipher.base64_alphabet bytes c hc)
  have hcolon : ∀ c ∈ ":".toList, Json.isPlain c = true :=
    List.forall_mem_singleton.mpr (by decide)
  refine Json.parse_plain_colon (fun c hc => ?_) ?_
  · simp only [encrypt, String.toList_append, List.mem_append] at hc
    rcases hc with (((hc | hc) | hc) | hc) | hc
    · exact hbase64 _ c hc
    · exact hcolon c hc
    · exact hbase64 _ c hc
    · exact hcolon c hc
    · exact hbase64 _ c hc
  · simp [encrypt]

theorem write_threw (hcipher : cipher.Lawful) (inner : InnerAdapter σ) (encryptionKey : String)
    (ivDescription ivProperties : Bytes) (obj : MemoryObject) (s : σ) :
    ∃ message, write cipher inner encryptionKey ivDescription ivProperties obj s =
      (s, .threw message) := by
  rw [write, encryptObject, parseJson, parse_encrypt hcipher]
  exact ⟨_, rfl⟩

/-! ### Objects in plain text -/

/-- The text is none that the key has encrypted. -/
def PlainText (cipher : RestCipher) (key : Bytes) (text : String) : Prop :=
  ∀ iv tag encrypted, Text.split ':' text = [iv, tag, encrypted] → ∀ plain,
    cipher.encrypt key (cipher.fromBase64 iv) plain ≠
      (cipher.fromBase64 encrypted, cipher.fromBase64 tag)

theorem decrypt_plainText (hcipher : cipher.Lawful) {key : Bytes} {text : String}
    (h : PlainText cipher key text) : ∃ message, decrypt cipher text key = .error message := by
  rw [decrypt]
  split
  · next iv tag encrypted hparts =>
    cases hdecrypt : cipher.decrypt key (cipher.fromBase64 iv) (cipher.fromBase64 tag)
        (cipher.fromBase64 encrypted) with
    | error message => exact ⟨message, rfl⟩
    | ok plain => exact (h iv tag encrypted hparts plain (hcipher.authentic hdecrypt)).elim
  · exact ⟨_, rfl⟩

theorem openObject_plainText (hcipher : cipher.Lawful) {key : Bytes} {obj : ReturnedObject}
    (h : PlainText cipher key obj.description) : openObject cipher key obj = obj := by
  obtain ⟨message, hmessage⟩ := decrypt_plainText hcipher h
  rw [openObject, decryptObject, hmessage]
  rfl

/-! ### The round trip -/

/-- An object that is stored in place of `obj`. -/
structure StandsFor (stored : ReturnedObject) (obj : MemoryObject) : Prop where
  id : stored.id = obj.id
  kind : stored.kind = obj.kind
  taskId : stored.taskId = obj.taskId
  runId : stored.runId = obj.runId
  timestamp : stored.timestamp = obj.timestamp
  tags : stored.tags = obj.tags

/-- The inner adapter's write succeeds, whatever description and properties the object has. -/
def Accepts (inner : InnerAdapter σ) (s : σ) (obj : MemoryObject) : Prop :=
  ∀ stored, StandsFor stored obj → (inner.write s stored).2 = .ok ()

/-- Where the inner adapter accepts the object, it is written and comes back unchanged. -/
def RoundTrip (cipher : RestCipher) (inner : InnerAdapter σ) (encryptionKey : String)
    (ivDescription ivProperties : Bytes) (obj : MemoryObject) (s : σ) : Prop :=
  Accepts inner s obj →
    let r := write cipher inner encryptionKey ivDescription ivProperties obj s
    r.2 = .returned (.ok ()) ∧
      read cipher inner encryptionKey r.1 obj.id = .ok (some obj.returned) ∧
      ∀ q objects, query cipher inner encryptionKey r.1 q = .ok objects →
        ∀ found ∈ objects, found.id = obj.id → found = obj.returned

/-- What was stored before the encryption comes back as it is. -/
structure LegacyUnchanged (cipher : RestCipher) (inner : InnerAdapter σ) (encryptionKey : String)
    (s : σ) : Prop where
  read : ∀ id obj, inner.read s id = .ok (some obj) →
    PlainText cipher (deriveKey cipher encryptionKey) obj.description →
      EncryptedAdapter.read cipher inner encryptionKey s id = .ok (some obj)
  query : ∀ q objects, inner.query s q = .ok objects →
    ∃ opened, EncryptedAdapter.query cipher inner encryptionKey s q = .ok opened ∧
      List.Forall₂ (fun obj found =>
        PlainText cipher (deriveKey cipher encryptionKey) obj.description → found = obj)
        objects opened

theorem legacy_unchanged (hcipher : cipher.Lawful) (inner : InnerAdapter σ)
    (encryptionKey : String) (s : σ) : LegacyUnchanged cipher inner encryptionKey s where
  read id obj hread hplain := by
    rw [EncryptedAdapter.read, hread, Except.map, Option.map_some,
      openObject_plainText hcipher hplain]
  query q objects hquery := by
    refine ⟨_, by rw [EncryptedAdapter.query, hquery]; rfl, ?_⟩
    rw [List.forall₂_map_right_iff]
    exact List.forall₂_same.mpr fun obj _ hplain => openObject_plainText hcipher hplain

theorem not_roundTrip (hcipher : cipher.Lawful) {encryptionKey : String}
    {ivDescription ivProperties : Bytes} {obj : MemoryObject} {s : σ}
    (haccepts : Accepts inner s obj) :
    ¬ RoundTrip cipher inner encryptionKey ivDescription ivProperties obj s := by
  intro htrip
  obtain ⟨message, hwrite⟩ :=
    write_threw hcipher inner encryptionKey ivDescription ivProperties obj s
  have hreturned := (htrip haccepts).1
  rw [hwrite] at hreturned
  cases hreturned

/-- No accepted object makes the round trip, while plain text is returned unchanged. -/
theorem roundTrip_iff (hcipher : cipher.Lawful) (inner : InnerAdapter σ) (encryptionKey : String)
    (ivDescription ivProperties : Bytes) (obj : MemoryObject) (s : σ) :
    (RoundTrip cipher inner encryptionKey ivDescription ivProperties obj s ↔
      ¬ Accepts inner s obj) ∧
    LegacyUnchanged cipher inner encryptionKey s := by
  refine ⟨⟨?_, ?_⟩, legacy_unchanged hcipher inner encryptionKey s⟩
  · intro htrip haccepts
    exact not_roundTrip hcipher haccepts htrip
  · intro hrefuses haccepts
    exact (hrefuses haccepts).elim

/-- A cipher that hides nothing, with the key as the authentication tag. -/
private def plainCipher : RestCipher where
  toKeyCipher := { openCipher with
    decrypt := fun key _ tag encrypted =>
      match String.fromUTF8? ⟨encrypted.toArray⟩ with
      | some text =>
        if tag = key then .ok text
        else .error "Unsupported state or unable to authenticate data"
      | none => .error "Unsupported state or unable to authenticate data" }
  sha256 := utf8Bytes
  syntaxError text := "Unexpected token in JSON: " ++ text

private theorem lawful_plainCipher : plainCipher.Lawful where
  decrypt_encrypt key iv text := by
    have hutf8 : String.fromUTF8? text.toByteArray = some text := dif_pos text.isValidUTF8
    simp [plainCipher, openCipher, utf8Bytes, hutf8]
  fromBase64_base64 := lawful_openCipher.fromBase64_base64
  colon_notMem_base64 := lawful_openCipher.colon_notMem_base64
  base64_alphabet _ _ hc := Encoding.mem_encodeBase64 toNat_lt_of_mem hc
  authentic {key iv tag encrypted text} h := by
    simp only [plainCipher] at h
    cases hutf8 : String.fromUTF8? ⟨encrypted.toArray⟩ with
    | none =>
      rw [hutf8] at h
      cases h
    | some text' =>
      rw [hutf8] at h
      by_cases htag : tag = key
      · simp only [if_pos htag] at h
        obtain rfl := Except.ok.inj h
        rw [String.fromUTF8?] at hutf8
        split at hutf8
        · obtain rfl := Option.some.inj hutf8
          subst htag
          rfl
        · cases hutf8
      · simp only [if_neg htag] at h
        cases h

/-- An adapter that keeps every object in a list. -/
private def listAdapter : InnerAdapter (List ReturnedObject) where
  write s obj := (s ++ [obj], .ok ())
  read s id := .ok (s.find? (·.id = id))
  query s _ := .ok s

private def lesson : MemoryObject where
  id := "mem-1"
  kind := "lesson"
  taskId := "task-1"
  timestamp := "2024-01-01T00:00:00.000Z"
  description := "retry with a smaller context"
  properties := .cons "model" (.string "small") .nil
  tags := []

theorem write_lesson_throws : Accepts listAdapter [] lesson ∧
    ¬ RoundTrip plainCipher listAdapter "key" [1, 2, 3] [4, 5, 6] lesson [] := by
  have haccepts : Accepts listAdapter [] lesson := fun _ _ => rfl
  exact ⟨haccepts, not_roundTrip lawful_plainCipher haccepts⟩

theorem roundTrip_lesson_iff :
    (RoundTrip plainCipher listAdapter "key" [1, 2, 3] [4, 5, 6] lesson [] ↔
      ¬ Accepts listAdapter [] lesson) ∧
    LegacyUnchanged plainCipher listAdapter "key" [] :=
  roundTrip_iff lawful_plainCipher listAdapter "key" [1, 2, 3] [4, 5, 6] lesson []

end KirkForge.EncryptedAdapter
