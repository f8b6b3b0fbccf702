import KirkForge.CoreTenancy.TenantEncryption

/-!
# Read after write

Whatever is written through the adapter of a tenant, rotated, cleared and read in between: an object
with JSON properties is read back as it was as long as the version of its key is in use, alone or in
a query, next to plain objects that were there before. A plain object must not look like an
encrypted one: a description in the form of a ciphertext is decrypted, and fails.
-/

namespace KirkForge

open TenantKeyProvider TenantEncryptionAdapter

/-- Properties that JSON gives back as they are. -/
def JsonValued (properties : JsMembers) : Prop :=
  ∃ fields, properties = JsValue.ofFields fields ∧ (Json.obj fields).WellFormed

namespace TenantVault

/-- What the inner adapter has, and what the tenant is to get for it: an object that was written for
the tenant under a version in use, or one that is taken for unencrypted. -/
inductive StandsFor (cipher : TenantCipher) (s : TenantVault) (tenantId : String) :
    MemoryObject → ReturnedObject → Prop
  | written (w : WrittenObject) (hw : w ∈ s.written) (htenant : w.tenantId = tenantId)
      (hactive : w.version ∈ (s.log.provider.getVersions cipher.toKeyCrypto tenantId).2.map
        TenantKeyVersion.version)
      (hproperties : JsonValued w.object.properties) :
      StandsFor cipher s tenantId w.stored w.object.returned
  | legacy (obj : MemoryObject) (h : isLegacy obj = true) :
      StandsFor cipher s tenantId obj obj.returned

/-- Reads and queries return what the objects of the inner adapter stand for. -/
structure ReadsBack (cipher : TenantCipher) (s : TenantVault) : Prop where
  read : ∀ tenantId stored plain, StandsFor cipher s tenantId stored plain →
    (TenantEncryptionAdapter.read cipher tenantId (.ok (some stored)) s.log.provider).2 =
      .ok (some plain)
  query : ∀ tenantId stored plain, List.Forall₂ (StandsFor cipher s tenantId) stored plain →
    (TenantEncryptionAdapter.query cipher tenantId (.ok stored) s.log.provider).2 = .ok plain

end TenantVault

/-! ### Providers with the same keys -/

/-- The other provider has the keys of the first in use. -/
structure SameKeys (crypto : KeyCrypto) (p p' : TenantKeyProvider) : Prop where
  derived : Derived crypto p → Derived crypto p'
  masterKey : p'.masterKey = p.masterKey
  versions : ∀ tenantId, (p'.getVersions crypto tenantId).2 = (p.getVersions crypto tenantId).2

namespace SameKeys

variable {crypto : KeyCrypto} {p p' p'' : TenantKeyProvider}

theorem refl (p : TenantKeyProvider) : SameKeys crypto p p := ⟨id, rfl, fun _ => rfl⟩

theorem trans (h : SameKeys crypto p p') (h' : SameKeys crypto p' p'') : SameKeys crypto p p'' where
  derived hp := h'.derived (h.derived hp)
  masterKey := h'.masterKey.trans h.masterKey
  versions tenantId := (h'.versions tenantId).trans (h.versions tenantId)

theorem getVersions (p : TenantKeyProvider) (tenantId : String) :
    SameKeys crypto p (p.getVersions crypto tenantId).1 where
  derived hp := hp.getVersions_fst tenantId
  masterKey := masterKey_getVersions
  versions other := getVersions_getVersions other

variable {cipher : TenantCipher}

theorem decryptForTenant (p : TenantKeyProvider) (tenantId ciphertext : String) :
    SameKeys cipher.toKeyCrypto p
      (p.decryptForTenant cipher.toKeyCipher tenantId ciphertext).1 := by
  rcases decryptForTenant_fst cipher.toKeyCipher tenantId ciphertext p with h | h
  · rw [h]
    exact refl p
  · rw [h]
    exact getVersions p tenantId

theorem decryptObject (p : TenantKeyProvider) (tenantId : String) (obj : MemoryObject) :
    SameKeys cipher.toKeyCrypto p (decryptObject cipher tenantId obj p).1 := by
  have hdescription : SameKeys cipher.toKeyCrypto p
      (p.decryptForTenant cipher.toKeyCipher tenantId obj.description).1 :=
    decryptForTenant p tenantId obj.description
  unfold TenantEncryptionAdapter.decryptObject
  dsimp only
  split
  · exact hdescription
  · split
    · next text _ =>
      have hproperties := hdescription.trans (decryptForTenant _ tenantId text)
      split
      · exact hproperties
      · split <;> exact hproperties
    · exact hdescription

theorem openAll (objects : List MemoryObject) (p : TenantKeyProvider) (tenantId : String) :
    SameKeys cipher.toKeyCrypto p (openAll cipher tenantId objects p).1 := by
  induction objects generalizing p with
  | nil => exact refl p
  | cons obj objects ih =>
    rw [TenantEncryptionAdapter.openAll]
    split
    · exact ih p
    · dsimp only
      have hobj : SameKeys cipher.toKeyCrypto p
          (TenantEncryptionAdapter.decryptObject cipher tenantId obj p).1 :=
        decryptObject p tenantId obj
      split
      · exact hobj.trans (ih _)
      · exact hobj

theorem read (p : TenantKeyProvider) (tenantId : String)
    (inner : Except String (Option MemoryObject)) :
    SameKeys cipher.toKeyCrypto p (read cipher tenantId inner p).1 := by
  unfold TenantEncryptionAdapter.read
  split
  · exact refl p
  · exact refl p
  · next obj =>
    split
    · exact refl p
    · dsimp only
      split <;> exact decryptObject p tenantId obj

theorem query (p : TenantKeyProvider) (tenantId : String)
    (inner : Except String (List MemoryObject)) :
    SameKeys cipher.toKeyCrypto p (query cipher tenantId inner p).1 := by
  unfold TenantEncryptionAdapter.query
  split
  · exact refl p
  · exact openAll _ p tenantId

end SameKeys

/-! ### One object -/

namespace TenantEncryptionAdapter

variable {crypto : KeyCrypto} {cipher : TenantCipher} {tenantId : String}
  {provider : TenantKeyProvider}

/-- What the inner adapter is handed for an object that is encrypted under a version of the key. -/
def storedAs (crypto : KeyCrypto) (version : TenantKeyVersion) (ivDescription ivProperties : Bytes)
    (obj : MemoryObject) : MemoryObject :=
  { obj with
    description := ciphertext crypto version ivDescription obj.description
    properties := .cons "_enc" (.string (ciphertext crypto version ivProperties
      (String.ofList (JsValue.stringify (.obj (JsValue.membersToJson obj.properties)))))) .nil }

/-- A write is under the current version, or fails if there is none. -/
theorem write_eq (crypto : KeyCrypto) (tenantId : String) (provider : TenantKeyProvider)
    (obj : MemoryObject) (ivDescription ivProperties : Bytes) :
    (write crypto tenantId obj ivDescription ivProperties provider).1 =
        (provider.getVersions crypto tenantId).1 ∧
      (write crypto tenantId obj ivDescription ivProperties provider).2.2 =
        match (provider.getVersions crypto tenantId).2.getLast? with
        | none => .error (failure tenantId missingKey)
        | some version => .ok (storedAs crypto version ivDescription ivProperties obj) := by
  have hagain : (provider.getVersions crypto tenantId).1.getVersions crypto tenantId =
      provider.getVersions crypto tenantId := by
    cases h : provider.keyCache.get? tenantId with
    | some versions => simp [TenantKeyProvider.getVersions, h]
    | none => simp [TenantKeyProvider.getVersions, h]
  cases h : (provider.getVersions crypto tenantId).2.getLast? with
  | none => simp only [write, encryptForTenant_eq, h, and_self]
  | some version => simp only [write, encryptForTenant_eq, hagain, h, storedAs, and_self]

/-- The encrypted object is decrypted to what it was. -/
theorem decryptObject_storedAs (hcipher : cipher.toKeyCipher.Lawful)
    (hderived : Derived cipher.toKeyCrypto provider) {version : TenantKeyVersion}
    (hkey : version.key = provider.deriveKey cipher.toKeyCrypto tenantId version.version)
    (hactive : version.version ∈
      (provider.getVersions cipher.toKeyCrypto tenantId).2.map TenantKeyVersion.version)
    {obj : MemoryObject} (hproperties : JsonValued obj.properties) (iv iv' : Bytes) :
    (decryptObject cipher tenantId (storedAs cipher.toKeyCrypto version iv iv' obj) provider).2 =
      .ok obj.returned := by
  obtain ⟨fields, hfields, hwf⟩ := hproperties
  have hdescription := decryptForTenant_ciphertext hcipher hderived hkey hactive iv obj.description
  have hkeys := @SameKeys.getVersions cipher.toKeyCrypto provider tenantId
  have htext := decryptForTenant_ciphertext hcipher (hkeys.derived hderived)
    (by rw [hkey, deriveKey, deriveKey, hkeys.masterKey]) (by rwa [hkeys.versions tenantId]) iv'
    (String.ofList (JsValue.stringify (.obj (JsValue.membersToJson obj.properties))))
  have hparse : Json.parse (String.ofList (JsValue.stringify
      (.obj (JsValue.membersToJson obj.properties)))) = some (.obj fields) := by
    rw [hfields, JsValue.membersToJson_ofFields, Json.parse_stringify hwf]
  simp only [decryptObject, storedAs, hdescription, JsMembers.get, if_pos, htext, hparse,
    JsValue.ofJson, ← hfields]
  rfl

/-- An object of the inner adapter that the provider can open, and what it opens to. -/
inductive Opens (cipher : TenantCipher) (tenantId : String) (provider : TenantKeyProvider) :
    MemoryObject → ReturnedObject → Prop
  | encrypted (version : TenantKeyVersion) (obj : MemoryObject) (iv iv' : Bytes)
      (hkey : version.key = provider.deriveKey cipher.toKeyCrypto tenantId version.version)
      (hactive : version.version ∈
        (provider.getVersions cipher.toKeyCrypto tenantId).2.map TenantKeyVersion.version)
      (hproperties : JsonValued obj.properties) :
      Opens cipher tenantId provider (storedAs cipher.toKeyCrypto version iv iv' obj) obj.returned
  | legacy (obj : MemoryObject) (h : isLegacy obj = true) :
      Opens cipher tenantId provider obj obj.returned

theorem Opens.sameKeys {p p' : TenantKeyProvider} (hkeys : SameKeys cipher.toKeyCrypto p p')
    {stored : MemoryObject} {plain : ReturnedObject} (h : Opens cipher tenantId p stored plain) :
    Opens cipher tenantId p' stored plain := by
  cases h with
  | encrypted version obj iv iv' hkey hactive hproperties =>
    refine .encrypted version obj iv iv' ?_ ?_ hproperties
    · rw [hkey, deriveKey, deriveKey, hkeys.masterKey]
    · rwa [hkeys.versions tenantId]
  | legacy _ hlegacy => exact .legacy _ hlegacy

theorem not_isLegacy_storedAs (version : TenantKeyVersion) (iv iv' : Bytes) (obj : MemoryObject) :
    isLegacy (storedAs crypto version iv iv' obj) = false := by
  simp [isLegacy, hasMarker, storedAs, JsMembers.keys]

theorem Opens.read (hcipher : cipher.toKeyCipher.Lawful)
    (hderived : Derived cipher.toKeyCrypto provider) {stored : MemoryObject}
    {plain : ReturnedObject} (h : Opens cipher tenantId provider stored plain) :
    (read cipher tenantId (.ok (some stored)) provider).2 = .ok (some plain) := by
  cases h with
  | encrypted version obj iv iv' hkey hactive hproperties =>
    simp only [TenantEncryptionAdapter.read, not_isLegacy_storedAs, Bool.false_eq_true, if_false,
      decryptObject_storedAs hcipher hderived hkey hactive hproperties]
  | legacy _ hlegacy => simp only [TenantEncryptionAdapter.read, hlegacy, if_true]

theorem Opens.openAll (hcipher : cipher.toKeyCipher.Lawful) {stored : List MemoryObject}
    {plain : List ReturnedObject} (hderived : Derived cipher.toKeyCrypto provider)
    (h : List.Forall₂ (Opens cipher tenantId provider) stored plain) :
    (openAll cipher tenantId stored provider).2 = .ok plain := by
  induction stored generalizing provider plain with
  | nil =>
    cases h
    rfl
  | cons obj stored ih =>
    cases h with
    | cons hobj hstored =>
      cases hobj with
      | encrypted version object iv iv' hkey hactive hproperties =>
        have hkeys : SameKeys cipher.toKeyCrypto provider (TenantEncryptionAdapter.decryptObject
            cipher tenantId (storedAs cipher.toKeyCrypto version iv iv' object) provider).1 :=
          SameKeys.decryptObject provider tenantId _
        have hrest := ih (hkeys.derived hderived) (hstored.imp fun _ _ ho => ho.sameKeys hkeys)
        simp only [TenantEncryptionAdapter.openAll, not_isLegacy_storedAs, Bool.false_eq_true,
          if_false, decryptObject_storedAs hcipher hderived hkey hactive hproperties, hrest]
        rfl
      | legacy _ hlegacy =>
        simp only [TenantEncryptionAdapter.openAll, hlegacy, if_true, ih hderived hstored]
        rfl

end TenantEncryptionAdapter

/-! ### Histories of the adapters -/

namespace TenantVault

variable {cipher : TenantCipher} {inner : String → OptionalMethods} {s : TenantVault}

/-- Every version in use has its derived key, and what was written was encrypted under one. -/
structure Inv (cipher : TenantCipher) (s : TenantVault) : Prop where
  derived : Derived cipher.toKeyCrypto s.log.provider
  written : ∀ w ∈ s.written, ∃ version iv iv', version.version = w.version ∧
    version.key = s.log.provider.deriveKey cipher.toKeyCrypto w.tenantId version.version ∧
    w.stored = storedAs cipher.toKeyCrypto version iv iv' w.object

/-- A provider with the same master key and derived keys. -/
theorem Inv.provide (h : Inv cipher s) {log : TenantLog}
    (hkey : log.provider.masterKey = s.log.provider.masterKey)
    (hderived : Derived cipher.toKeyCrypto log.provider) : Inv cipher ⟨log, s.written⟩ where
  derived := hderived
  written w hw := by
    obtain ⟨version, iv, iv', hversion, hderive, hstored⟩ := h.written w hw
    refine ⟨version, iv, iv', hversion, ?_, hstored⟩
    rw [hderive, deriveKey, deriveKey, hkey]

/-- What a write adds was encrypted under the current version. -/
theorem Inv.write (h : Inv cipher s) (tenantId : String) (obj : MemoryObject) (iv iv' : Bytes) :
    Inv cipher (step cipher inner s (.call (.call tenantId (.write obj) iv iv'))) := by
  obtain ⟨hprovider, hresult⟩ := write_eq cipher.toKeyCrypto tenantId s.log.provider obj iv iv'
  have hkept : Inv cipher (s.provide (s.log.provider.getVersions cipher.toKeyCrypto tenantId).1) :=
    h.provide masterKey_getVersions (h.derived.getVersions_fst tenantId)
  refine ⟨?_, fun w hw => ?_⟩
  · simp only [step, TenantLog.step, TenantLog.receive, hprovider]
    exact hkept.derived
  · simp only [step, TenantLog.step, TenantLog.receive, hprovider] at hw ⊢
    rcases List.mem_append.mp hw with hw | hw
    · exact hkept.written w hw
    · simp only [writtenBy, hresult, currentVersion] at hw
      cases hlast : (s.log.provider.getVersions cipher.toKeyCrypto tenantId).2.getLast? with
      | none =>
        rw [hlast] at hw
        cases hw
      | some version =>
        rw [hlast] at hw
        obtain rfl := List.mem_singleton.mp hw
        refine ⟨version, iv, iv', rfl, ?_, rfl⟩
        rw [h.derived.getVersions tenantId version (List.mem_of_getLast? hlast), deriveKey, deriveKey,
          masterKey_getVersions]

theorem Inv.call (h : Inv cipher s) (i : TenantInput) :
    Inv cipher (step cipher inner s (.call i)) := by
  have hother (log : TenantLog) (hkey : log.provider.masterKey = s.log.provider.masterKey)
      (hderived : Derived cipher.toKeyCrypto log.provider) : Inv cipher ⟨log, s.written ++ []⟩ := by
    rw [List.append_nil]
    exact h.provide hkey hderived
  cases i with
  | call tenantId c iv iv' =>
    cases c with
    | write obj => exact h.write tenantId obj iv iv'
    | writeRun run => exact hother _ rfl h.derived
    | writeEmission emission => exact hother _ rfl h.derived
    | writeRunAndEmissions run emissions => exact hother _ rfl h.derived
  | rotateKey tenantId => exact hother _ masterKey_rotateKey (h.derived.rotateKey tenantId)
  | clearCache => exact hother _ rfl Derived.clearCache
  | clearTenantCache tenantId => exact hother _ rfl (h.derived.clearTenantCache tenantId)

theorem Inv.step (h : Inv cipher s) (i : VaultInput) : Inv cipher (step cipher inner s i) := by
  cases i with
  | call i => exact h.call i
  | read tenantId result =>
    have hkeys : SameKeys cipher.toKeyCrypto s.log.provider _ :=
      SameKeys.read s.log.provider tenantId result
    exact h.provide hkeys.masterKey (hkeys.derived h.derived)
  | query tenantId result =>
    have hkeys : SameKeys cipher.toKeyCrypto s.log.provider _ :=
      SameKeys.query s.log.provider tenantId result
    exact h.provide hkeys.masterKey (hkeys.derived h.derived)

theorem Inv.opens (h : Inv cipher s) {tenantId : String} {stored : MemoryObject}
    {plain : ReturnedObject} (hstands : StandsFor cipher s tenantId stored plain) :
    Opens cipher tenantId s.log.provider stored plain := by
  cases hstands with
  | written w hw htenant hactive hproperties =>
    obtain ⟨version, iv, iv', hversion, hkey, hstored⟩ := h.written w hw
    rw [hstored]
    rw [htenant] at hkey
    exact .encrypted version w.object iv iv' hkey (by rwa [hversion]) hproperties
  | legacy _ hlegacy => exact .legacy _ hlegacy

theorem Inv.readsBack (hcipher : cipher.toKeyCipher.Lawful) (h : Inv cipher s) :
    ReadsBack cipher s where
  read _ _ _ hstands := (h.opens hstands).read hcipher h.derived
  query _ _ _ hstands :=
    Opens.openAll hcipher h.derived (hstands.imp fun _ _ ho => h.opens ho)

/-- In every history of the adapters of all tenants, what was written under a version in use and
what is taken for unencrypted is returned unchanged, by a read and by a query. -/
theorem adapters_readBack (hcipher : cipher.toKeyCipher.Lawful) (inner : String → OptionalMethods)
    (masterKey : Bytes) (activeKeyVersions : JsNumber) (is : List VaultInput) :
    Run.AllStates (TenantVault.step cipher inner) (ReadsBack cipher)
      (init masterKey activeKeyVersions) is := by
  have hinit : Inv cipher (init masterKey activeKeyVersions) :=
    { derived := fun _ _ hget => nomatch hget
      written := fun _ hw => absurd hw List.not_mem_nil }
  refine (Run.allStates_of_forall (fun s i hs => hs.step i) hinit).mono ?_
  exact fun s hs => hs.readsBack hcipher

def openTenantCipher : TenantCipher where
  toKeyCipher := openCipher
  syntaxError := fun text => text

def note (description : String) : MemoryObject where
  id := "1"
  kind := "note"
  taskId := "task"
  timestamp := "2024-01-01T00:00:00.000Z"
  description := description
  properties := .nil
  tags := []

theorem adapters_readBack_note : Run.AllStates
    (TenantVault.step openTenantCipher fun _ => ⟨true, true, true⟩) (ReadsBack openTenantCipher)
    (init (List.replicate 32 0) 2)
    [.call (.call "a" (.write (note "")) [] []), .call (.rotateKey "a"), .query "a" (.ok [])] :=
  adapters_readBack lawful_openCipher _ _ _ _

/-- A plain object with a description in the form of a ciphertext makes the read fail. -/
theorem legacy_ciphertext_not_read : ¬∀ obj : MemoryObject, (TenantEncryptionAdapter.read
    openTenantCipher "a" (.ok (some obj)) { masterKey := List.replicate 32 0 }).2 =
      .ok (some obj.returned) := by
  intro h
  have hok := congrArg Except.toBool (h (note "v9:a:b:c"))
  exact absurd hok (by decide)

end TenantVault

end KirkForge
