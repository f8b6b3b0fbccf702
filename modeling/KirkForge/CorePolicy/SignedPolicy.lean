import KirkForge.Theory.Encoding
import KirkForge.Theory.JsonText

/-!
# Signed policies

`verifySignedPolicy`, `signPolicyHmac` and `signPolicyEd25519` (`core-policy/src/index.ts`). What is
signed is the hash that the caller passes, the type of the signature, the key id and the time,
joined by colons. The verification computes the hash of the policy anew.
-/

namespace KirkForge

/-- The functions of `node:crypto` and `Buffer.from(text, "base64")`. A byte is a natural number
below 256. -/
structure PolicyCrypto where
  /-- SHA-256 of a text, in hexadecimal. -/
  computeHash : String → String
  /-- HMAC-SHA256 of a payload under a secret. -/
  hmac : (secret payload : String) → List Nat
  /-- An Ed25519 signature with a private key in PEM, unless `sign` throws. -/
  sign : (privateKeyPem payload : String) → Option (List Nat)
  /-- `createPublicKey(pem).asymmetricKeyType`, unless it throws. -/
  keyType : String → Option String
  /-- Whether the signature of a payload is valid, or the message of what `verify` throws. -/
  verify : (publicKeyPem payload : String) → List Nat → Except String Bool
  fromBase64 : String → List Nat

inductive SignatureType
  | hmacSha256 | ed25519
  deriving DecidableEq, Repr

def SignatureType.text : SignatureType → String
  | hmacSha256 => "hmac-sha256"
  | ed25519 => "ed25519"

structure SignedPolicyBundle where
  policy : JsValue
  hash : String
  signatureType : String
  signature : String
  keyId : String
  signedAt : String

structure PolicySignatureError where
  message : String
  cause : Option String := none
  deriving DecidableEq, Repr

/-- What is signed. -/
def signedPayload (hash signatureType keyId signedAt : String) : String :=
  hash ++ ":" ++ signatureType ++ ":" ++ keyId ++ ":" ++ signedAt

namespace SignedPolicyBundle

def payload (bundle : SignedPolicyBundle) : String :=
  signedPayload bundle.hash bundle.signatureType bundle.keyId bundle.signedAt

end SignedPolicyBundle

namespace PolicyCrypto

variable (crypto : PolicyCrypto)

/-- The hash of the text that `JSON.stringify` writes for a policy. -/
def hashOf (policy : Json) : String := crypto.computeHash (String.ofList (JsValue.stringify policy))

def verifyHmac (bundle : SignedPolicyBundle) (secret : String) : Except PolicySignatureError Unit :=
  let expected := Encoding.encodeBase64 (crypto.hmac secret bundle.payload)
  if crypto.fromBase64 bundle.signature ≠ crypto.fromBase64 expected then
    .error { message := "HMAC-SHA256 signature verification failed. " ++
      "The policy may have been modified or the wrong key was used." }
  else .ok ()

def verifyEd25519 (bundle : SignedPolicyBundle) (publicKeyPem : String) :
    Except PolicySignatureError Unit :=
  match crypto.keyType publicKeyPem with
  | none => .error { message := "Ed25519 verification key is not a valid PEM public key" }
  | some keyType =>
    if keyType ≠ "ed25519" then
      .error { message := "Ed25519 verification key is not an Ed25519 key (got " ++ keyType ++ ")" }
    else
      match crypto.verify publicKeyPem bundle.payload (crypto.fromBase64 bundle.signature) with
      | .error message =>
        .error {
          message := "Ed25519 signature verification error: " ++ message, cause := some message }
      | .ok false =>
        .error { message := "Ed25519 signature verification failed. " ++
          "The policy may have been modified or the wrong public key was used." }
      | .ok true => .ok ()

/-- `verifySignedPolicy(bundle, verificationKey)`; `none` if it throws, as it does for a policy that
has no JSON. -/
def verifySignedPolicy (bundle : SignedPolicyBundle) (verificationKey : String) :
    Option (Except PolicySignatureError JsValue) :=
  bundle.policy.toJson.map fun policy =>
    let expectedHash := crypto.hashOf policy
    if bundle.hash ≠ expectedHash then
      .error { message := "Policy hash mismatch: expected " ++ expectedHash ++ ", got " ++
        bundle.hash ++ ". The policy content may have been tampered with after signing." }
    else if bundle.signatureType = "hmac-sha256" then
      (crypto.verifyHmac bundle verificationKey).map fun _ => bundle.policy
    else if bundle.signatureType = "ed25519" then
      (crypto.verifyEd25519 bundle verificationKey).map fun _ => bundle.policy
    else .error { message := "Unknown signature type: " ++ bundle.signatureType }

/-- `signPolicyHmac(policy, hash, secretKey, keyId)` at the time `now`. -/
def signPolicyHmac (policy : JsValue) (hash secretKey : String) (keyId : Option String)
    (now : UtcTime) : SignedPolicyBundle :=
  let keyId := keyId.getD "default"
  let signedAt := now.toISOString
  let payload := signedPayload hash "hmac-sha256" keyId signedAt
  let signature := Encoding.encodeBase64 (crypto.hmac secretKey payload)
  { policy, hash, signatureType := "hmac-sha256", signature, keyId, signedAt }

/-- `signPolicyEd25519(policy, hash, privateKeyPem, keyId)` at the time `now`; `none` if it
throws. -/
def signPolicyEd25519 (policy : JsValue) (hash privateKeyPem : String) (keyId : Option String)
    (now : UtcTime) : Option SignedPolicyBundle :=
  let keyId := keyId.getD "default"
  let signedAt := now.toISOString
  let payload := signedPayload hash "ed25519" keyId signedAt
  (crypto.sign privateKeyPem payload).map fun signature =>
    { policy, hash, signatureType := "ed25519", signature := Encoding.encodeBase64 signature
      keyId, signedAt }

/-- A call of one of the two functions that sign. -/
structure Call where
  signatureType : SignatureType
  policy : JsValue
  hash : String
  /-- The secret, or the private key in PEM. -/
  key : String
  keyId : Option String
  now : UtcTime

def Call.run (call : Call) : Option SignedPolicyBundle :=
  match call.signatureType with
  | .hmacSha256 => some (crypto.signPolicyHmac call.policy call.hash call.key call.keyId call.now)
  | .ed25519 => crypto.signPolicyEd25519 call.policy call.hash call.key call.keyId call.now

variable {crypto}

/-- Everything but the signature is known of the bundle of a call. -/
theorem Call.run_eq {call : Call} {bundle : SignedPolicyBundle}
    (h : call.run crypto = some bundle) :
    bundle.policy = call.policy ∧ bundle.hash = call.hash ∧
      bundle.signatureType = call.signatureType.text ∧ bundle.keyId = call.keyId.getD "default" ∧
      bundle.signedAt = call.now.toISOString := by
  obtain ⟨signatureType, policy, hash, key, keyId, now⟩ := call
  cases signatureType with
  | hmacSha256 =>
    obtain rfl := Option.some.inj h
    exact ⟨rfl, rfl, rfl, rfl, rfl⟩
  | ed25519 =>
    obtain ⟨signature, -, rfl⟩ := Option.map_eq_some_iff.mp h
    exact ⟨rfl, rfl, rfl, rfl, rfl⟩

/-- A bundle is accepted if it has the hash of its policy and a valid signature of its type. -/
theorem verifySignedPolicy_eq_ok_iff {bundle : SignedPolicyBundle} {key : String}
    {result : JsValue} : crypto.verifySignedPolicy bundle key = some (.ok result) ↔
      result = bundle.policy ∧
      (∃ policy, bundle.policy.toJson = some policy ∧ bundle.hash = crypto.hashOf policy) ∧
      (bundle.signatureType = "hmac-sha256" ∧ crypto.verifyHmac bundle key = .ok () ∨
        bundle.signatureType = "ed25519" ∧ crypto.verifyEd25519 bundle key = .ok ()) := by
  have hmap {checked : Except PolicySignatureError Unit} :
      (checked.map fun _ => bundle.policy) = .ok result ↔
        result = bundle.policy ∧ checked = .ok () := by
    cases checked with
    | error _ => simp [Except.map]
    | ok _ => simp [Except.map, eq_comm]
  have htypes : "ed25519" ≠ "hmac-sha256" := by decide
  rw [verifySignedPolicy, Option.map_eq_some_iff]
  constructor
  · rintro ⟨policy, hpolicy, h⟩
    dsimp only at h
    split at h
    · cases h
    next hhash =>
    split at h
    · next htype =>
      obtain ⟨hresult, hchecked⟩ := hmap.mp h
      exact ⟨hresult, ⟨policy, hpolicy, not_not.mp hhash⟩, .inl ⟨htype, hchecked⟩⟩
    · split at h
      · next htype =>
        obtain ⟨hresult, hchecked⟩ := hmap.mp h
        exact ⟨hresult, ⟨policy, hpolicy, not_not.mp hhash⟩, .inr ⟨htype, hchecked⟩⟩
      · cases h
  · rintro ⟨hresult, ⟨policy, hpolicy, hhash⟩, hchecked⟩
    refine ⟨policy, hpolicy, ?_⟩
    dsimp only
    rw [if_neg (not_not_intro hhash)]
    rcases hchecked with ⟨htype, hchecked⟩ | ⟨htype, hchecked⟩
    · rw [if_pos htype]
      exact hmap.mpr ⟨hresult, hchecked⟩
    · rw [if_neg (htype ▸ htypes), if_pos htype]
      exact hmap.mpr ⟨hresult, hchecked⟩

/-- A bundle that is accepted has a policy with a JSON text, its hash, and a type that is known. -/
theorem verifySignedPolicy_eq_ok {bundle : SignedPolicyBundle} {key : String} {result : JsValue}
    (h : crypto.verifySignedPolicy bundle key = some (.ok result)) :
    ∃ policy, bundle.policy.toJson = some policy ∧ bundle.hash = crypto.hashOf policy ∧
      ∃ signatureType : SignatureType, bundle.signatureType = signatureType.text := by
  obtain ⟨-, ⟨policy, hpolicy, hhash⟩, hchecked⟩ := verifySignedPolicy_eq_ok_iff.mp h
  refine ⟨policy, hpolicy, hhash, ?_⟩
  rcases hchecked with ⟨htype, -⟩ | ⟨htype, -⟩
  · exact ⟨.hmacSha256, htype⟩
  · exact ⟨.ed25519, htype⟩

/-- Where the colon between the key id and the time stands makes no difference to the payload. -/
theorem payload_moved {bundle : SignedPolicyBundle} {keyId signedAt : String}
    (h : keyId ++ ":" ++ signedAt = bundle.keyId ++ ":" ++ bundle.signedAt) :
    { bundle with keyId, signedAt }.payload = bundle.payload := by
  simp only [SignedPolicyBundle.payload, signedPayload, String.append_assoc] at h ⊢
  rw [h]

/-- Nor does it to the verification. -/
theorem verifySignedPolicy_moved {bundle : SignedPolicyBundle} {keyId signedAt : String}
    (h : keyId ++ ":" ++ signedAt = bundle.keyId ++ ":" ++ bundle.signedAt) (key : String) :
    crypto.verifySignedPolicy { bundle with keyId, signedAt } key =
      crypto.verifySignedPolicy bundle key := by
  simp only [verifySignedPolicy, verifyHmac, verifyEd25519, payload_moved h]

theorem verifyHmac_signPolicyHmac (policy : JsValue) (hash key : String) (keyId : Option String)
    (now : UtcTime) :
    crypto.verifyHmac (crypto.signPolicyHmac policy hash key keyId now) key = .ok () := by
  rw [verifyHmac]
  exact if_neg (not_not_intro rfl)

end PolicyCrypto

end KirkForge
