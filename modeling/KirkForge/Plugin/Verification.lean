import KirkForge.Plugin.Manifest
import KirkForge.Theory.Outcome

/-!
# Loading and verifying a plugin

`crates/kirkforge-plugin/src/verification.rs`, and the loader that calls it. The parser of TOML, the
decoder of hexadecimal text and Ed25519 are parameters. A key is what `VerifyingKey::from_bytes`
makes of 32 bytes.
-/

namespace KirkForge.Plugin

structure PluginEnv where
  /-- `toml::from_str` -/
  parseManifest : String → Except String PluginManifest
  /-- The text of the `Utf8Error` that the bytes give. -/
  utf8Error : ByteArray → String
  /-- `hex::decode` -/
  hexDecode : String → Except String (List UInt8)
  Key : Type
  /-- `VerifyingKey::from_bytes` -/
  verifyingKey : List UInt8 → Except String Key
  /-- `verifying_key.verify(bytes, signature)` succeeds. -/
  verify : Key → ByteArray → List UInt8 → Bool

def publicKeyBytes : Nat := 32

def signatureBytes : Nat := 64

/-- How strictly signatures are verified. -/
structure PluginVerificationPolicy where
  trustedPublicKeys : List String
  requireSigned : Bool

namespace PluginVerificationPolicy

def allowUnsigned : PluginVerificationPolicy := ⟨[], false⟩

def requireSignedWithKeys (keys : List String) : PluginVerificationPolicy := ⟨keys, true⟩

end PluginVerificationPolicy

inductive PluginVerificationError
  | signatureRequired
  | missingSignature (path : String)
  | io (error : String)
  | untrustedKey
  | missingPublicKey
  | invalidPublicKey (error : String)
  | invalidSignature (error : String)
  | badSignature

def PluginVerificationError.text : PluginVerificationError → String
  | signatureRequired => "plugin signing is required but no signature file was found"
  | missingSignature path => "signature file not found: " ++ path
  | io error => "cannot read signature file: " ++ error
  | untrustedKey => "plugin public key is not in the host trust allowlist"
  | missingPublicKey => "plugin declares no public_key and host requires signatures"
  | invalidPublicKey error => "invalid public key hex: " ++ error
  | invalidSignature error => "invalid signature hex: " ++ error
  | badSignature => "signature verification failed: manifest may have been tampered with"

inductive ManifestError
  | io (path source : String)
  | parse (error : String)
  | verification (error : PluginVerificationError)

def ManifestError.text : ManifestError → String
  | io path source => "cannot read manifest at " ++ path ++ ": " ++ source
  | parse error => "failed to parse manifest: " ++ error
  | verification error => "manifest verification failed: " ++ error.text

variable (env : PluginEnv)

/-- A key or a signature, of which the length is checked. -/
def decodeSized (size : Nat) (error : String → PluginVerificationError) (text : String) :
    Except PluginVerificationError (List UInt8) := do
  let bytes ← (env.hexDecode text).mapError error
  if bytes.length ≠ size then .error (error s!"expected {size} bytes, got {bytes.length}")
  else .ok bytes

/-- What is left to do of a signature that is there. -/
def verifySignature (sigHex : String) (manifestBytes : ByteArray) (publicKey : Option String)
    (policy : PluginVerificationPolicy) : Except PluginVerificationError Unit :=
  match publicKey with
  | none => .error .missingPublicKey
  | some publicKey =>
    if ¬policy.trustedPublicKeys.contains publicKey then .error .untrustedKey
    else do
      let publicKeyBytes ← decodeSized env publicKeyBytes .invalidPublicKey publicKey
      let sigBytes ← decodeSized env signatureBytes .invalidSignature sigHex
      let verifyingKey ← (env.verifyingKey publicKeyBytes).mapError .invalidPublicKey
      if ¬env.verify verifyingKey manifestBytes sigBytes then .error .badSignature else .ok ()

def verifyPluginManifest (entry : PluginEntry) (manifestBytes : ByteArray)
    (publicKey : Option String) (policy : PluginVerificationPolicy) :
    Except PluginVerificationError Unit :=
  if ¬entry.signatureExists then
    if policy.requireSigned then .error .signatureRequired else .ok ()
  else do
    let sigHex ← entry.signatureText.mapError .io
    verifySignature env (trim sigHex) manifestBytes publicKey policy

/-- `PluginManifest::parse` of bytes. -/
def parseBytes (manifestBytes : ByteArray) : Except ManifestError PluginManifest :=
  match String.fromUTF8? manifestBytes with
  | some content => (env.parseManifest content).mapError .parse
  | none => .error (.parse ("manifest is not valid utf-8: " ++ env.utf8Error manifestBytes))

def loadWithVerification (entry : PluginEntry) (policy : PluginVerificationPolicy) :
    Except ManifestError LoadedPlugin := do
  let manifestBytes ← entry.manifestBytes.mapError (.io (entry.path ++ "/kirkforge.toml"))
  let manifest ← parseBytes env manifestBytes
  (verifyPluginManifest env entry manifestBytes manifest.publicKey policy).mapError .verification
  return .fromManifest entry manifest

/-! ### What a successful load has checked -/

/-- The bytes carry a signature under the declared key, which is one that the host trusts. -/
def SignedByTrustedKey (sigHex : String) (manifestBytes : ByteArray) (publicKey : Option String)
    (policy : PluginVerificationPolicy) : Prop :=
  ∃ key ∈ policy.trustedPublicKeys, publicKey = some key ∧
    ∃ keyBytes sigBytes verifyingKey,
      env.hexDecode key = .ok keyBytes ∧ keyBytes.length = publicKeyBytes ∧
      env.hexDecode sigHex = .ok sigBytes ∧ sigBytes.length = signatureBytes ∧
      env.verifyingKey keyBytes = .ok verifyingKey ∧
      env.verify verifyingKey manifestBytes sigBytes = true

variable {env} {entry : PluginEntry} {policy : PluginVerificationPolicy}

open ExceptRules

theorem decodeSized_eq_ok_iff {size : Nat} {error : String → PluginVerificationError}
    {text : String} {bytes : List UInt8} :
    decodeSized env size error text = .ok bytes ↔
      env.hexDecode text = .ok bytes ∧ bytes.length = size := by
  rw [decodeSized, bind_eq_ok]
  simp only [mapError_eq_ok, ite_error_eq_ok, not_not, Except.ok.injEq]
  constructor
  · rintro ⟨bytes', hdecode, hlength, rfl⟩
    exact ⟨hdecode, hlength⟩
  · rintro ⟨hdecode, hlength⟩
    exact ⟨bytes, hdecode, hlength, rfl⟩

theorem verifySignature_eq_ok_iff {sigHex : String} {manifestBytes : ByteArray}
    {publicKey : Option String} :
    verifySignature env sigHex manifestBytes publicKey policy = .ok () ↔
      SignedByTrustedKey env sigHex manifestBytes publicKey policy := by
  cases publicKey with
  | none => exact ⟨nofun, fun ⟨_, _, h, _⟩ => nomatch h⟩
  | some key =>
    simp only [verifySignature, ite_error_eq_ok, bind_eq_ok, decodeSized_eq_ok_iff, mapError_eq_ok,
      not_not, List.contains_iff_mem]
    constructor
    · rintro ⟨htrusted, keyBytes, ⟨hkey, hkeyLength⟩, sigBytes, ⟨hsig, hsigLength⟩, verifyingKey,
        hverifying, hverify, -⟩
      exact ⟨key, htrusted, rfl, keyBytes, sigBytes, verifyingKey, hkey, hkeyLength, hsig,
        hsigLength, hverifying, hverify⟩
    · rintro ⟨_, htrusted, ⟨⟩, keyBytes, sigBytes, verifyingKey, hkey, hkeyLength, hsig,
        hsigLength, hverifying, hverify⟩
      exact ⟨htrusted, keyBytes, ⟨hkey, hkeyLength⟩, sigBytes, ⟨hsig, hsigLength⟩, verifyingKey,
        hverifying, hverify, trivial⟩

/-- A plugin is accepted when it has no signature and needs none, or a good one. -/
theorem verifyPluginManifest_eq_ok_iff {manifestBytes : ByteArray} {publicKey : Option String} :
    verifyPluginManifest env entry manifestBytes publicKey policy = .ok () ↔
      entry.signatureExists = false ∧ policy.requireSigned = false ∨
      entry.signatureExists = true ∧ ∃ sigHex, entry.signatureText = .ok sigHex ∧
        SignedByTrustedKey env (trim sigHex) manifestBytes publicKey policy := by
  rw [verifyPluginManifest]
  cases hexists : entry.signatureExists with
  | false => simp
  | true => simp [bind_eq_ok, mapError_eq_ok, verifySignature_eq_ok_iff]

/-- Loading an entry under a policy gives the plugin of the manifest that was read and verified. -/
structure Loads (env : PluginEnv) (entry : PluginEntry) (policy : PluginVerificationPolicy)
    (manifestBytes : ByteArray) (manifest : PluginManifest) : Prop where
  read : entry.manifestBytes = .ok manifestBytes
  parsed : parseBytes env manifestBytes = .ok manifest
  verified : verifyPluginManifest env entry manifestBytes manifest.publicKey policy = .ok ()

/-- What is required to be signed has been verified under a trusted key. -/
theorem Loads.signed {manifestBytes : ByteArray} {manifest : PluginManifest}
    (h : Loads env entry policy manifestBytes manifest) (hrequired : policy.requireSigned = true) :
    ∃ sigHex, entry.signatureText = .ok sigHex ∧
      SignedByTrustedKey env (trim sigHex) manifestBytes manifest.publicKey policy := by
  obtain ⟨-, hunsigned⟩ | ⟨-, hsigned⟩ := verifyPluginManifest_eq_ok_iff.mp h.verified
  · cases hrequired.symm.trans hunsigned
  · exact hsigned

theorem loadWithVerification_eq_ok_iff {plugin : LoadedPlugin} :
    loadWithVerification env entry policy = .ok plugin ↔
      ∃ manifestBytes manifest, Loads env entry policy manifestBytes manifest ∧
        LoadedPlugin.fromManifest entry manifest = plugin := by
  simp only [loadWithVerification, bind_eq_ok, mapError_eq_ok, pure, Except.pure, Except.ok.injEq]
  constructor
  · rintro ⟨manifestBytes, hread, manifest, hparsed, ⟨⟩, hverified, hplugin⟩
    exact ⟨manifestBytes, manifest, ⟨hread, hparsed, hverified⟩, hplugin⟩
  · rintro ⟨manifestBytes, manifest, h, hplugin⟩
    exact ⟨manifestBytes, h.read, manifest, h.parsed, (), h.verified, hplugin⟩

end KirkForge.Plugin
