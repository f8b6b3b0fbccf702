import KirkForge.Theory.Encoding
import KirkForge.Theory.JsNumber
import KirkForge.Theory.OrderedMap

/-!
# Keys of tenants

`TenantKeyProvider` (`core-secrets/src/tenant-key-provider.ts`): the versions of a tenant's key that
are in use, each derived from the master key, and the encryption under the latest of them.
-/

namespace KirkForge

abbrev Bytes := List UInt8

/-- The functions of `node:crypto` in use, and the text form of bytes. -/
structure KeyCrypto where
  hmacSha256 : Bytes → String → Bytes
  /-- AES-256-GCM of a text under a key and an initialization vector: the encrypted bytes and the
  authentication tag. -/
  encrypt : Bytes → Bytes → String → Bytes × Bytes
  base64 : Bytes → String

structure TenantKeyVersion where
  version : Nat
  key : Bytes
  deriving DecidableEq

structure TenantKeyProvider where
  masterKey : Bytes
  activeKeyVersions : JsNumber := 2
  keyCache : OrderedMap String (List TenantKeyVersion) := ∅

namespace TenantKeyProvider

variable (crypto : KeyCrypto)

def create (masterKey : Bytes) (activeKeyVersions : JsNumber) : Except String TenantKeyProvider :=
  if masterKey.length ≠ 32 then
    .error "TenantKeyProvider: masterKey must be exactly 32 bytes (AES-256)"
  else .ok { masterKey, activeKeyVersions }

def deriveKey (provider : TenantKeyProvider) (tenantId : String) (version : Nat) : Bytes :=
  crypto.hmacSha256 provider.masterKey
    ("kirkforge-tenant-dek:" ++ tenantId ++ ":v" ++ toString version)

/-- The versions of a tenant, which are made on the first use. -/
def getVersions (tenantId : String) (provider : TenantKeyProvider) :
    TenantKeyProvider × List TenantKeyVersion :=
  match provider.keyCache.get? tenantId with
  | some versions => (provider, versions)
  | none =>
    let versions := [{ version := 1, key := provider.deriveKey crypto tenantId 1 }]
    ({ provider with keyCache := provider.keyCache.set tenantId versions }, versions)

/-- The loop that drops the oldest versions. -/
def pruneOldVersions (activeKeyVersions : JsNumber) :
    List TenantKeyVersion → List TenantKeyVersion
  | [] => []
  | oldest :: versions =>
    if JsNumber.gt (versions.length + 1 : Nat) activeKeyVersions then
      pruneOldVersions activeKeyVersions versions
    else oldest :: versions

def rotateKey (tenantId : String) (provider : TenantKeyProvider) : TenantKeyProvider :=
  let r := provider.getVersions crypto tenantId
  let nextVersion := match r.2.getLast? with
    | some latest => latest.version + 1
    | none => 1
  let newVersion : TenantKeyVersion :=
    { version := nextVersion, key := provider.deriveKey crypto tenantId nextVersion }
  { r.1 with
    keyCache := r.1.keyCache.set tenantId
      (pruneOldVersions provider.activeKeyVersions (r.2 ++ [newVersion])) }

def clearCache (provider : TenantKeyProvider) : TenantKeyProvider := { provider with keyCache := ∅ }

def clearTenantCache (tenantId : String) (provider : TenantKeyProvider) : TenantKeyProvider :=
  { provider with keyCache := provider.keyCache.delete tenantId }

/-- The error of a read of `key` where there is no version. -/
def missingKey : String := "Cannot read properties of undefined (reading 'key')"

/-- The text `v<version>:<iv>:<tag>:<data>`, with the initialization vector that `randomBytes`
gives. There is no version to encrypt with if none may be kept. -/
def encryptForTenant (tenantId plaintext : String) (iv : Bytes) (provider : TenantKeyProvider) :
    TenantKeyProvider × Except String String :=
  let r := provider.getVersions crypto tenantId
  match r.2.getLast? with
  | none => (r.1, .error missingKey)
  | some version =>
    let encrypted := crypto.encrypt version.key iv plaintext
    (r.1, .ok ("v" ++ toString version.version ++ ":" ++ crypto.base64 iv ++ ":" ++
      crypto.base64 encrypted.2 ++ ":" ++ crypto.base64 encrypted.1))

end TenantKeyProvider

end KirkForge

/-!
## Decryption with a tenant's keys

The reading side of `TenantKeyProvider` (`core-secrets/src/tenant-key-provider.ts`), and what it
makes of a ciphertext of the writing side: the plaintext, if the version that the ciphertext names
is in use and has its derived key (`decryptForTenant_ciphertext`).
-/

namespace KirkForge

/-- The functions that decryption needs besides. -/
structure KeyCipher extends KeyCrypto where
  /-- AES-256-GCM under a key and an initialization vector: the text of the encrypted bytes, or the
  message of the exception if the authentication tag is not theirs. -/
  decrypt : Bytes → Bytes → Bytes → Bytes → Except String String
  /-- `Buffer.from(text, "base64")` -/
  fromBase64 : String → Bytes

/-- Decryption reverses encryption under the same key, and base64 text is read back as its bytes. -/
structure KeyCipher.Lawful (cipher : KeyCipher) : Prop where
  decrypt_encrypt : ∀ key iv text, cipher.decrypt key iv (cipher.encrypt key iv text).2
    (cipher.encrypt key iv text).1 = .ok text
  fromBase64_base64 : ∀ bytes, cipher.fromBase64 (cipher.base64 bytes) = bytes
  colon_notMem_base64 : ∀ bytes, ':' ∉ (cipher.base64 bytes).toList

namespace TenantKeyProvider

/-- The number of `/^v(\d+):/`, and what follows the match. -/
def versionPrefix (ciphertext : String) : Option (Nat × List Char) :=
  match ciphertext.toList with
  | 'v' :: cs =>
    match cs.takeWhile Char.isDigit, cs.dropWhile Char.isDigit with
    | d :: ds, ':' :: rest => some (Nat.ofDigitChars 10 (d :: ds) 0, rest)
    | _, _ => none
  | _ => none

def decryptForTenant (cipher : KeyCipher) (tenantId ciphertext : String)
    (provider : TenantKeyProvider) : TenantKeyProvider × Except String String :=
  match versionPrefix ciphertext with
  | none => (provider, .error "Invalid ciphertext format: missing version prefix")
  | some (versionNum, rest) =>
    match rest.splitOn ':' with
    | [iv, tag, encrypted] =>
      let r := provider.getVersions cipher.toKeyCrypto tenantId
      match r.2.find? (·.version = versionNum) with
      | none =>
        (r.1, .error ("Key version " ++ (versionNum : JsNumber).text ++ " not found for tenant " ++
          tenantId ++ ". Active versions: " ++
          ", ".intercalate (r.2.map fun v => (v.version : JsNumber).text)))
      | some keyVersion =>
        (r.1, cipher.decrypt keyVersion.key (cipher.fromBase64 (String.ofList iv))
          (cipher.fromBase64 (String.ofList tag)) (cipher.fromBase64 (String.ofList encrypted)))
    | _ =>
      (provider, .error ("Invalid ciphertext format: expected " ++
        "v{version}:{iv}:{tag}:{ciphertext}"))

variable {crypto : KeyCrypto} {cipher : KeyCipher} {provider : TenantKeyProvider}
  {tenantId : String}

/-- The text that `encryptForTenant` makes with a version of the key. -/
def ciphertext (crypto : KeyCrypto) (version : TenantKeyVersion) (iv : Bytes) (plaintext : String) :
    String :=
  "v" ++ toString version.version ++ ":" ++ crypto.base64 iv ++ ":" ++
    crypto.base64 (crypto.encrypt version.key iv plaintext).2 ++ ":" ++
    crypto.base64 (crypto.encrypt version.key iv plaintext).1

theorem encryptForTenant_eq (plaintext : String) (iv : Bytes) :
    provider.encryptForTenant crypto tenantId plaintext iv =
      ((provider.getVersions crypto tenantId).1,
        match (provider.getVersions crypto tenantId).2.getLast? with
        | none => .error missingKey
        | some version => .ok (ciphertext crypto version iv plaintext)) := by
  unfold encryptForTenant
  dsimp only
  cases (provider.getVersions crypto tenantId).2.getLast? with
  | none => rfl
  | some version => rfl

/-- Every version in use has its derived key. -/
def Derived (crypto : KeyCrypto) (provider : TenantKeyProvider) : Prop :=
  ∀ tenantId versions, provider.keyCache.get? tenantId = some versions →
    ∀ v ∈ versions, v.key = provider.deriveKey crypto tenantId v.version

/-! ### Versions in use -/

@[simp] theorem masterKey_getVersions :
    (provider.getVersions crypto tenantId).1.masterKey = provider.masterKey := by
  unfold getVersions
  split <;> rfl

@[simp] theorem activeKeyVersions_getVersions :
    (provider.getVersions crypto tenantId).1.activeKeyVersions = provider.activeKeyVersions := by
  unfold getVersions
  split <;> rfl

/-- The versions of a tenant are made on the first use and stay. -/
theorem get?_getVersions (other : String) :
    (provider.getVersions crypto tenantId).1.keyCache.get? other =
      if other = tenantId then some (provider.getVersions crypto tenantId).2
      else provider.keyCache.get? other := by
  unfold getVersions
  split
  · next h =>
    split
    · next heq => rw [heq, h]
    · rfl
  · simp only [OrderedMap.get?_set, eq_comm]

theorem getVersions_snd : (provider.getVersions crypto tenantId).2 =
    (provider.keyCache.get? tenantId).getD
      [{ version := 1, key := provider.deriveKey crypto tenantId 1 }] := by
  unfold getVersions
  split
  · next h => rw [h]; rfl
  · next h => rw [h]; rfl

/-- Looking at the versions of a tenant changes those of none. -/
theorem getVersions_getVersions (other : String) :
    ((provider.getVersions crypto tenantId).1.getVersions crypto other).2 =
      (provider.getVersions crypto other).2 := by
  rw [getVersions_snd, get?_getVersions, deriveKey, masterKey_getVersions, ← deriveKey]
  split
  · next h => rw [h]; rfl
  · rw [getVersions_snd]

theorem Derived.getVersions (h : Derived crypto provider) (tenantId : String) :
    ∀ v ∈ (provider.getVersions crypto tenantId).2,
      v.key = provider.deriveKey crypto tenantId v.version := by
  unfold TenantKeyProvider.getVersions
  split
  · next versions hget => exact h tenantId versions hget
  · intro v hv
    rw [List.mem_singleton.mp hv]

theorem Derived.getVersions_fst (h : Derived crypto provider) (tenantId : String) :
    Derived crypto (provider.getVersions crypto tenantId).1 := by
  intro other versions hget v hv
  rw [get?_getVersions] at hget
  have hderive : (provider.getVersions crypto tenantId).1.deriveKey crypto other v.version =
      provider.deriveKey crypto other v.version := by
    rw [deriveKey, deriveKey, masterKey_getVersions]
  rw [hderive]
  split at hget
  · next heq =>
    obtain rfl := Option.some.inj hget
    rw [heq]
    exact h.getVersions tenantId v hv
  · exact h other versions hget v hv

theorem pruneOldVersions_suffix (limit : JsNumber) (versions : List TenantKeyVersion) :
    pruneOldVersions limit versions <:+ versions := by
  induction versions with
  | nil => exact List.suffix_rfl
  | cons oldest versions ih =>
    rw [pruneOldVersions]
    split
    · exact ih.trans (List.suffix_cons oldest versions)
    · exact List.suffix_rfl

/-- The version that a rotation makes. -/
def nextVersion (versions : List TenantKeyVersion) : Nat :=
  match versions.getLast? with
  | some latest => latest.version + 1
  | none => 1

/-- The versions of a tenant after a rotation. -/
def rotatedVersions (crypto : KeyCrypto) (tenantId : String) (provider : TenantKeyProvider) :
    List TenantKeyVersion :=
  let versions := (provider.getVersions crypto tenantId).2
  pruneOldVersions provider.activeKeyVersions (versions ++
    [{ version := nextVersion versions
       key := provider.deriveKey crypto tenantId (nextVersion versions) }])

theorem get?_rotateKey (other : String) :
    (provider.rotateKey crypto tenantId).keyCache.get? other =
      if other = tenantId then some (provider.rotatedVersions crypto tenantId)
      else provider.keyCache.get? other := by
  simp only [rotateKey, OrderedMap.get?_set, get?_getVersions]
  by_cases h : other = tenantId
  · rw [if_pos h.symm, if_pos h]
    rfl
  · rw [if_neg h, if_neg (Ne.symm h), if_neg h]

@[simp] theorem masterKey_rotateKey :
    (provider.rotateKey crypto tenantId).masterKey = provider.masterKey := by
  simp [rotateKey]

@[simp] theorem activeKeyVersions_rotateKey :
    (provider.rotateKey crypto tenantId).activeKeyVersions = provider.activeKeyVersions := by
  simp [rotateKey]

theorem Derived.rotateKey (h : Derived crypto provider) (tenantId : String) :
    Derived crypto (provider.rotateKey crypto tenantId) := by
  intro other versions hget v hv
  rw [get?_rotateKey] at hget
  rw [deriveKey, masterKey_rotateKey, ← deriveKey]
  split at hget
  · next heq =>
    obtain rfl := Option.some.inj hget
    rw [heq]
    rcases List.mem_append.mp ((pruneOldVersions_suffix _ _).subset hv) with hv | hv
    · exact h.getVersions tenantId v hv
    · rw [List.mem_singleton.mp hv]
  · exact h other versions hget v hv

theorem Derived.clearCache : Derived crypto provider.clearCache := by
  intro other versions hget
  rw [TenantKeyProvider.clearCache, OrderedMap.get?_empty] at hget
  exact nomatch hget

theorem Derived.clearTenantCache (h : Derived crypto provider) (tenantId : String) :
    Derived crypto (provider.clearTenantCache tenantId) := by
  intro other versions hget v hv
  rw [TenantKeyProvider.clearTenantCache, OrderedMap.get?_delete] at hget
  split at hget
  · cases hget
  · exact h other versions hget v hv

theorem getVersions_rotateKey (other : String) :
    ((provider.rotateKey crypto tenantId).getVersions crypto other).2 =
      if other = tenantId then provider.rotatedVersions crypto tenantId
      else (provider.getVersions crypto other).2 := by
  rw [getVersions_snd, get?_rotateKey, deriveKey, masterKey_rotateKey, ← deriveKey]
  split
  · rfl
  · rw [getVersions_snd]

theorem getVersions_clearCache (other : String) :
    (provider.clearCache.getVersions crypto other).2 =
      [{ version := 1, key := provider.deriveKey crypto other 1 }] := by
  rw [getVersions_snd]
  rfl

theorem getVersions_clearTenantCache (other : String) :
    ((provider.clearTenantCache tenantId).getVersions crypto other).2 =
      if other = tenantId then [{ version := 1, key := provider.deriveKey crypto other 1 }]
      else (provider.getVersions crypto other).2 := by
  rw [getVersions_snd, clearTenantCache, OrderedMap.get?_delete, eq_comm]
  by_cases h : other = tenantId
  · rw [if_pos h, if_pos h.symm]
    rfl
  · rw [if_neg h, if_neg (Ne.symm h), getVersions_snd]
    rfl

/-! ### Reading back -/

/-- Decryption does no more to the cache than looking at the versions. -/
theorem decryptForTenant_fst (cipher : KeyCipher) (tenantId ciphertext : String)
    (provider : TenantKeyProvider) :
    (provider.decryptForTenant cipher tenantId ciphertext).1 = provider ∨
      (provider.decryptForTenant cipher tenantId ciphertext).1 =
        (provider.getVersions cipher.toKeyCrypto tenantId).1 := by
  unfold decryptForTenant
  split
  · exact .inl rfl
  · split
    · dsimp only
      split <;> exact .inr rfl
    · exact .inl rfl

theorem versionPrefix_ciphertext (version : TenantKeyVersion) (iv : Bytes) (plaintext : String) :
    versionPrefix (ciphertext crypto version iv plaintext) = some (version.version,
      (crypto.base64 iv).toList ++ ':' ::
        ((crypto.base64 (crypto.encrypt version.key iv plaintext).2).toList ++ ':' ::
          (crypto.base64 (crypto.encrypt version.key iv plaintext).1).toList)) := by
  have hdigits : ∀ c ∈ Nat.toDigits 10 version.version, c.isDigit = true := fun c hc =>
    Nat.isDigit_of_mem_toDigits (by decide) (by decide) hc
  have hne : Nat.toDigits 10 version.version ≠ [] := Nat.toDigits_ne_nil
  obtain ⟨d, ds, hds⟩ := List.exists_cons_of_ne_nil hne
  have htext : (ciphertext crypto version iv plaintext).toList =
      'v' :: (Nat.toDigits 10 version.version ++ ':' :: ((crypto.base64 iv).toList ++ ':' ::
        ((crypto.base64 (crypto.encrypt version.key iv plaintext).2).toList ++ ':' ::
          (crypto.base64 (crypto.encrypt version.key iv plaintext).1).toList))) := by
    simp [ciphertext, Nat.toString_eq_repr, Nat.toList_repr]
  have hcolon : ¬Char.isDigit ':' = true := by decide
  have htake (rest : List Char) :
      (Nat.toDigits 10 version.version ++ ':' :: rest).takeWhile Char.isDigit = d :: ds := by
    rw [List.takeWhile_append_of_pos hdigits, List.takeWhile_cons_of_neg hcolon, List.append_nil,
      hds]
  have hdrop (rest : List Char) :
      (Nat.toDigits 10 version.version ++ ':' :: rest).dropWhile Char.isDigit = ':' :: rest := by
    rw [List.dropWhile_append_of_pos hdigits, List.dropWhile_cons_of_neg hcolon]
  simp only [versionPrefix, htext, htake, hdrop]
  rw [← hds, Nat.ofDigitChars_ten_toDigits]

/-- A ciphertext of a version in use decrypts to its plaintext. -/
theorem decryptForTenant_ciphertext (hcipher : cipher.Lawful)
    (hderived : Derived cipher.toKeyCrypto provider) {version : TenantKeyVersion}
    (hkey : version.key = provider.deriveKey cipher.toKeyCrypto tenantId version.version)
    (hactive : version.version ∈
      (provider.getVersions cipher.toKeyCrypto tenantId).2.map TenantKeyVersion.version)
    (iv : Bytes) (plaintext : String) :
    provider.decryptForTenant cipher tenantId (ciphertext cipher.toKeyCrypto version iv plaintext) =
      ((provider.getVersions cipher.toKeyCrypto tenantId).1, .ok plaintext) := by
  have hcolon := hcipher.colon_notMem_base64
  rw [decryptForTenant, versionPrefix_ciphertext]
  dsimp only
  rw [List.splitOn_append_cons_self, List.splitOn_append_cons_self,
    List.splitOn_eq_singleton (hcolon iv), List.splitOn_eq_singleton (hcolon _),
    List.splitOn_eq_singleton (hcolon _)]
  obtain ⟨v, hv, hversion⟩ := List.mem_map.mp hactive
  obtain ⟨found, hfound⟩ : ∃ found, (provider.getVersions cipher.toKeyCrypto tenantId).2.find?
      (fun v => decide (v.version = version.version)) = some found :=
    Option.isSome_iff_exists.mp (List.find?_isSome.mpr ⟨v, hv, decide_eq_true hversion⟩)
  have hsame : found.version = version.version := by
    simpa using List.find?_some hfound
  have hfoundKey : found.key = version.key := by
    rw [hderived.getVersions tenantId found (List.mem_of_find?_eq_some hfound), hsame, hkey]
  simp only [List.singleton_append, hfound, String.ofList_toList, hcipher.fromBase64_base64,
    hfoundKey, hcipher.decrypt_encrypt]

end TenantKeyProvider

/-! ### The laws have an instance -/

def utf8Bytes (text : String) : Bytes := text.toByteArray.data.toList

/-- A cipher that hides nothing, with the key as the authentication tag. -/
def openCipher : KeyCipher where
  hmacSha256 key info := key ++ utf8Bytes info
  encrypt key _ text := (utf8Bytes text, key)
  base64 bytes := Encoding.encodeBase64 (bytes.map UInt8.toNat)
  decrypt key _ tag encrypted :=
    if tag = key then .ok ((String.fromUTF8? ⟨encrypted.toArray⟩).getD "")
    else .error "Unsupported state or unable to authenticate data"
  fromBase64 text := (Encoding.decodeBase64 text).map UInt8.ofNat

theorem toNat_lt_of_mem {bytes : Bytes} : ∀ b ∈ bytes.map UInt8.toNat, b < 256 := by
  intro b hb
  obtain ⟨byte, -, rfl⟩ := List.mem_map.mp hb
  exact byte.toNat_lt

theorem lawful_openCipher : openCipher.Lawful where
  decrypt_encrypt key iv text := by
    have hutf8 : String.fromUTF8? text.toByteArray = some text := dif_pos text.isValidUTF8
    simp [openCipher, utf8Bytes, hutf8]
  fromBase64_base64 bytes := by
    have hbyte : UInt8.ofNat ∘ UInt8.toNat = id := funext fun b => UInt8.ofNat_toNat
    simp [openCipher, Encoding.decodeBase64_encodeBase64 toNat_lt_of_mem, hbyte]
  colon_notMem_base64 bytes := by
    intro hcolon
    rcases Encoding.mem_encodeBase64 toNat_lt_of_mem hcolon with hdigit | hpad
    · exact absurd hdigit (by decide)
    · exact absurd hpad (by decide)

end KirkForge
