import KirkForge.CoreSecrets.KeyRotation
import KirkForge.CoreSecrets.TenantKeyProvider
import KirkForge.MemoryPalace.Types
import KirkForge.Theory.JsMembers
import KirkForge.Theory.Run

/-!
# Encryption for tenants

The writing side of `TenantEncryptionAdapter` (`core-tenancy/src/tenant-encryption.ts`): what the
inner adapters are handed, and what of it depends on the descriptions and properties. An object is
encrypted on its way; a run is handed on as it is.
-/

namespace KirkForge

/-- A call of a method of an adapter that stores something. -/
inductive AdapterCall
  | write (obj : MemoryObject)
  | writeRun (run : RunRow)
  | writeEmission (emission : EmissionRow)
  | writeRunAndEmissions (run : RunRow) (emissions : List EmissionRow)

/-- Which of the optional methods an adapter has. -/
structure OptionalMethods where
  writeRun : Bool
  writeEmission : Bool
  writeRunAndEmissions : Bool

/-- What the adapters of the tenants are built on: the digests and ciphers, and the methods of the
inner adapter of each tenant. -/
structure TenantEnv where
  crypto : KeyCrypto
  inner : String → OptionalMethods

namespace TenantEncryptionAdapter

variable (crypto : KeyCrypto)

def failure (tenantId cause : String) : String :=
  "TenantEncryptionAdapter: encryption failed for tenant " ++ tenantId ++ ": " ++ cause

/-- What `encryptForTenant` gives, in the order of the calls. -/
abbrev Outputs := List (Except String String)

/-- `write` up to the call of the inner adapter: what `encryptForTenant` gives for the description
and for the properties, and the encrypted object or the error that is returned. -/
def write (tenantId : String) (obj : MemoryObject) (ivDescription ivProperties : Bytes)
    (provider : TenantKeyProvider) : TenantKeyProvider × Outputs × Except String MemoryObject :=
  let description := provider.encryptForTenant crypto tenantId obj.description ivDescription
  match description.2 with
  | .error cause => (description.1, [description.2], .error (failure tenantId cause))
  | .ok descriptionText =>
    let plaintext := String.ofList (JsValue.stringify (.obj (JsValue.membersToJson obj.properties)))
    let properties := description.1.encryptForTenant crypto tenantId plaintext ivProperties
    match properties.2 with
    | .error cause =>
      (properties.1, [description.2, properties.2], .error (failure tenantId cause))
    | .ok propertiesText =>
      (properties.1, [description.2, properties.2],
        .ok { obj with
          description := descriptionText
          properties := .cons "_enc" (.string propertiesText) .nil })

/-! Each of the other methods calls the method of the same name of the inner adapter, if it has one,
with the same arguments. -/

def writeRun (inner : OptionalMethods) (run : RunRow) : List AdapterCall :=
  if inner.writeRun then [.writeRun run] else []

def writeEmission (inner : OptionalMethods) (emission : EmissionRow) : List AdapterCall :=
  if inner.writeEmission then [.writeEmission emission] else []

def writeRunAndEmissions (inner : OptionalMethods) (run : RunRow) (emissions : List EmissionRow) :
    List AdapterCall :=
  if inner.writeRunAndEmissions then [.writeRunAndEmissions run emissions] else []

end TenantEncryptionAdapter

/-! ### The adapters of all tenants -/

/-- The key provider, the calls that the inner adapters have received, each with its tenant, and
what `encryptForTenant` gave to the adapters. -/
structure TenantLog where
  provider : TenantKeyProvider
  received : List (String × AdapterCall) := []
  outputs : TenantEncryptionAdapter.Outputs := []

inductive TenantInput
  /-- A call of a tenant's adapter, with the bytes that `randomBytes` gives if it encrypts. -/
  | call (tenantId : String) (call : AdapterCall) (ivDescription ivProperties : Bytes)
  | rotateKey (tenantId : String)
  | clearCache
  | clearTenantCache (tenantId : String)

namespace TenantLog

variable (env : TenantEnv)

/-- The inner adapter of a tenant is called. -/
def receive (s : TenantLog) (tenantId : String) (calls : List AdapterCall) : TenantLog :=
  { s with received := s.received ++ calls.map (Prod.mk tenantId) }

def step (s : TenantLog) : TenantInput → TenantLog
  | .call tenantId (.write obj) ivDescription ivProperties =>
    let r :=
      TenantEncryptionAdapter.write env.crypto tenantId obj ivDescription ivProperties s.provider
    { s with provider := r.1, outputs := s.outputs ++ r.2.1 }.receive tenantId
      (r.2.2.toOption.map AdapterCall.write).toList
  | .call tenantId (.writeRun run) _ _ =>
    s.receive tenantId (TenantEncryptionAdapter.writeRun (env.inner tenantId) run)
  | .call tenantId (.writeEmission emission) _ _ =>
    s.receive tenantId (TenantEncryptionAdapter.writeEmission (env.inner tenantId) emission)
  | .call tenantId (.writeRunAndEmissions run emissions) _ _ =>
    s.receive tenantId
      (TenantEncryptionAdapter.writeRunAndEmissions (env.inner tenantId) run emissions)
  | .rotateKey tenantId => { s with provider := s.provider.rotateKey env.crypto tenantId }
  | .clearCache => { s with provider := s.provider.clearCache }
  | .clearTenantCache tenantId => { s with provider := s.provider.clearTenantCache tenantId }

end TenantLog

end KirkForge

/-!
## Decryption for tenants

The reading side of `TenantEncryptionAdapter` (`core-tenancy/src/tenant-encryption.ts`): what it
makes of the result of the inner adapter. Encrypted and plain objects stand side by side in the
inner adapter and are told apart by the shape of the description and by the property `_enc`.
-/

namespace KirkForge

/-- The ciphers of a tenant, and the message of the exception for a text that is no JSON. -/
structure TenantCipher extends KeyCipher where
  syntaxError : String → String

/-- An object as an adapter returns it. What is decrypted may be any value, so the properties are
one. -/
structure ReturnedObject where
  id : String
  kind : String
  taskId : String
  runId : Option String
  timestamp : String
  description : String
  properties : JsValue
  tags : List String

/-- The object as it is. -/
def MemoryObject.returned (obj : MemoryObject) : ReturnedObject :=
  { id := obj.id, kind := obj.kind, taskId := obj.taskId, runId := obj.runId
    timestamp := obj.timestamp, description := obj.description
    properties := .object obj.properties, tags := obj.tags }

namespace TenantEncryptionAdapter

/-- `/[A-Za-z0-9+/=]+/` on a whole text. -/
def isBase64Text (cs : List Char) : Bool :=
  cs ≠ [] && cs.all fun c => (Encoding.base64Digit c).isSome || c = '='

/-- `/v\d+/` on a whole text. -/
def isVersionText : List Char → Bool
  | 'v' :: digits => digits ≠ [] && digits.all Char.isDigit
  | _ => false

/-- `CIPHERTEXT_RE.test(value)` -/
def isCiphertext (value : String) : Bool :=
  match value.toList.splitOn ':' with
  | [version, iv, tag, data] =>
    isVersionText version && isBase64Text iv && isBase64Text tag && isBase64Text data
  | _ => false

/-- `"_enc" in properties` -/
def hasMarker (properties : JsMembers) : Bool := properties.keys.contains "_enc"

/-- An object that is taken for unencrypted. -/
def isLegacy (obj : MemoryObject) : Bool :=
  !isCiphertext obj.description && !hasMarker obj.properties

section Read

variable (cipher : TenantCipher) (tenantId : String)

def decryptObject (obj : MemoryObject) (provider : TenantKeyProvider) :
    TenantKeyProvider × Except String ReturnedObject :=
  let d := provider.decryptForTenant cipher.toKeyCipher tenantId obj.description
  match d.2 with
  | .error cause => (d.1, .error cause)
  | .ok description =>
    match obj.properties.get "_enc" with
    | .string text =>
      let p := d.1.decryptForTenant cipher.toKeyCipher tenantId text
      match p.2 with
      | .error cause => (p.1, .error cause)
      | .ok json =>
        match Json.parse json with
        | none => (p.1, .error (cipher.syntaxError json))
        | some j =>
          (p.1, .ok { obj.returned with description, properties := JsValue.ofJson j })
    | _ => (d.1, .ok { obj.returned with description })

def decryptionFailure (cause : String) : String :=
  "TenantEncryptionAdapter: decryption failed for tenant " ++ tenantId ++ ": " ++ cause

def queryFailure (cause : String) : String :=
  "TenantEncryptionAdapter: decryption failed for tenant " ++ tenantId ++ " in query: " ++ cause

/-- `read`, given the result of the inner adapter. -/
def read (inner : Except String (Option MemoryObject)) (provider : TenantKeyProvider) :
    TenantKeyProvider × Except String (Option ReturnedObject) :=
  match inner with
  | .error cause => (provider, .error cause)
  | .ok none => (provider, .ok none)
  | .ok (some obj) =>
    if isLegacy obj then (provider, .ok (some obj.returned))
    else
      let r := decryptObject cipher tenantId obj provider
      match r.2 with
      | .ok opened => (r.1, .ok (some opened))
      | .error cause => (r.1, .error (decryptionFailure tenantId cause))

/-- The loop of `query` over what the inner adapter returned. -/
def openAll : List MemoryObject → TenantKeyProvider →
    TenantKeyProvider × Except String (List ReturnedObject)
  | [], provider => (provider, .ok [])
  | obj :: objects, provider =>
    if isLegacy obj then
      let r := openAll objects provider
      (r.1, r.2.map (obj.returned :: ·))
    else
      let r := decryptObject cipher tenantId obj provider
      match r.2 with
      | .ok opened =>
        let rest := openAll objects r.1
        (rest.1, rest.2.map (opened :: ·))
      | .error cause => (r.1, .error (queryFailure tenantId cause))

/-- `query`, given the result of the inner adapter. -/
def query (inner : Except String (List MemoryObject)) (provider : TenantKeyProvider) :
    TenantKeyProvider × Except String (List ReturnedObject) :=
  match inner with
  | .error cause => (provider, .error cause)
  | .ok objects => openAll cipher tenantId objects provider

end Read

end TenantEncryptionAdapter

/-! ### Tenants that write and read -/

/-- An object that an adapter wrote: what it was, what the inner adapter was handed, and the version
of the key. -/
structure WrittenObject where
  tenantId : String
  object : MemoryObject
  stored : MemoryObject
  version : Nat

/-- The log of the tenants, with the objects that were written. -/
structure TenantVault where
  log : TenantLog
  written : List WrittenObject

inductive VaultInput
  | call (i : TenantInput)
  | read (tenantId : String) (inner : Except String (Option MemoryObject))
  | query (tenantId : String) (inner : Except String (List MemoryObject))

namespace TenantVault

open TenantEncryptionAdapter

/-- What an input writes through an adapter. -/
def writtenBy (crypto : KeyCrypto) (provider : TenantKeyProvider) : TenantInput → List WrittenObject
  | .call tenantId (.write object) ivDescription ivProperties =>
    match (write crypto tenantId object ivDescription ivProperties provider).2.2,
        provider.currentVersion crypto tenantId with
    | .ok stored, some version => [{ tenantId, object, stored, version }]
    | _, _ => []
  | _ => []

def init (masterKey : Bytes) (activeKeyVersions : JsNumber) : TenantVault where
  log := { provider := { masterKey, activeKeyVersions } }
  written := []

/-- Replace the provider. -/
def provide (s : TenantVault) (provider : TenantKeyProvider) : TenantVault :=
  { s with log := { s.log with provider } }

def step (cipher : TenantCipher) (inner : String → OptionalMethods) (s : TenantVault) :
    VaultInput → TenantVault
  | .call i =>
    { log := s.log.step ⟨cipher.toKeyCrypto, inner⟩ i
      written := s.written ++ writtenBy cipher.toKeyCrypto s.log.provider i }
  | .read tenantId result => s.provide (read cipher tenantId result s.log.provider).1
  | .query tenantId result => s.provide (query cipher tenantId result s.log.provider).1

end TenantVault

end KirkForge
