import KirkForge.CorePolicy.SignatureBinding

/-!
# Signing a policy that was loaded

`loadFromFile` takes the hash of the text of the file, and the verification takes that of the text
that `JSON.stringify` writes for the policy. The bundle of a policy that was loaded is therefore
accepted, at once or after it has been stored, if and only if the two texts are one.
-/

namespace KirkForge

namespace SignedPolicyBundle

variable (bundle : SignedPolicyBundle)

def value : JsValue :=
  .object <| .cons "policy" bundle.policy <| .cons "hash" (.string bundle.hash) <|
    .cons "signatureType" (.string bundle.signatureType) <|
    .cons "signature" (.string bundle.signature) <| .cons "keyId" (.string bundle.keyId) <|
    .cons "signedAt" (.string bundle.signedAt) .nil

/-- A bundle with the members of an object. -/
def ofRead (j : Json) : Option SignedPolicyBundle :=
  let text (key : String) : Option String := (j.get? key).bind Json.str?
  (text "hash").bind fun hash =>
  (text "signatureType").bind fun signatureType =>
  (text "signature").bind fun signature =>
  (text "keyId").bind fun keyId =>
  (text "signedAt").map fun signedAt =>
    { policy := Policy.orUndefined (j.get? "policy")
      hash, signatureType, signature, keyId, signedAt }

/-- `JSON.parse(JSON.stringify(bundle))` -/
def stored : Option SignedPolicyBundle :=
  bundle.value.toJson.bind fun j => (Json.read (String.ofList (JsValue.stringify j))).bind ofRead

/-- The members of a bundle whose policy has a JSON. -/
def fields (policy : Json) : List (String × Json) :=
  [("policy", policy), ("hash", .str bundle.hash), ("signatureType", .str bundle.signatureType),
    ("signature", .str bundle.signature), ("keyId", .str bundle.keyId),
    ("signedAt", .str bundle.signedAt)]

variable {bundle}

theorem toJson_value {policy : Json} (h : bundle.policy.toJson = some policy) :
    bundle.value.toJson = some (.obj (bundle.fields policy)) := by
  simp only [value, fields, JsValue.toJson, JsValue.membersToJson, h]

/-- What comes back from the store is the bundle, with a policy of the same JSON. -/
theorem stored_eq {policy : Json} (h : bundle.policy.toJson = some policy)
    (hpolicy : policy.All Json.IsFinite Json.Ordered) :
    bundle.stored = some { bundle with policy := JsValue.ofRead policy } := by
  have hkeys : Json.Ordered ["policy", "hash", "signatureType", "signature", "keyId",
      "signedAt"] := by
    decide
  have hall : (Json.obj (bundle.fields policy)).All Json.IsFinite Json.Ordered :=
    ⟨hkeys, hpolicy, trivial, trivial, trivial, trivial, trivial, trivial⟩
  rw [stored, toJson_value h, Option.bind_some, Json.read_stringify hall, Option.bind_some]
  rfl

end SignedPolicyBundle

/-- The text is what `JSON.stringify` writes for a policy. -/
def IsPolicyText (raw : String) : Prop :=
  ∃ policy : Policy, 1 ≤ policy.version ∧ policy.json.All Json.IsFinite Json.Ordered ∧
    raw = policy.text

/-! ### Loading -/

namespace PolicyHolder

variable {host : PolicyHost} {engine engine' : PolicyHolder} {filePath raw : String}

theorem loadFromFile_eq_ok (hfile : host.file (host.cwd.resolve filePath) = .text raw)
    (h : engine.loadFromFile host filePath = (engine', .ok ())) :
    ∃ parsed, Json.read raw = some parsed ∧
      Policy.validatePolicy parsed = .ok engine'.policy ∧ engine'.hash = host.computeHash raw := by
  simp only [loadFromFile, hfile] at h
  cases hread : Json.read raw with
  | none =>
    rw [hread] at h
    cases h
  | some parsed =>
    rw [hread] at h
    dsimp only at h
    cases hvalidated : Policy.validatePolicy parsed with
    | error message =>
      rw [hvalidated] at h
      cases h
    | ok validated =>
      rw [hvalidated] at h
      obtain ⟨rfl, -⟩ := Prod.mk.inj h
      exact ⟨parsed, rfl, hvalidated, rfl⟩

/-- The text of the file is that of the policy that was loaded if and only if it is that of some
policy. -/
theorem text_eq_iff (hfile : host.file (host.cwd.resolve filePath) = .text raw)
    (h : engine.loadFromFile host filePath = (engine', .ok ())) :
    raw = engine'.policy.text ↔ IsPolicyText raw := by
  obtain ⟨parsed, hread, hvalid, -⟩ := loadFromFile_eq_ok hfile h
  constructor
  · intro htext
    have hdouble := Policy.all_validatePolicy hvalid (Json.all_read hread)
    -- the file is read as what was written, in which no number is infinite
    have hparsed : parsed = engine'.policy.json.written := by
      rw [htext, Policy.text, Json.read_stringify (Json.all_written hdouble)] at hread
      exact (Option.some.inj hread).symm
    have hfinite := Policy.all_validatePolicy hvalid (hparsed ▸ Json.all_written hdouble)
    exact ⟨engine'.policy, (Policy.readFrom_of_validatePolicy hvalid).positive, hfinite, htext⟩
  · rintro ⟨policy, hversion, hfinite, rfl⟩
    rw [Policy.text, Json.written_eq_self hfinite, Json.read_stringify hfinite] at hread
    obtain rfl := Option.some.inj hread
    rw [Policy.validatePolicy_json _ hversion] at hvalid
    rw [Except.ok.inj hvalid]

end PolicyHolder

namespace PolicyCrypto

/-- What is assumed of keys: a public key is one for Ed25519, its private key signs, and base64 is
decoded. -/
structure KeysLawful (crypto : PolicyCrypto) (keyPair : String → String → Prop) : Prop where
  keyType : ∀ privateKey publicKey, keyPair privateKey publicKey →
    crypto.keyType publicKey = some "ed25519"
  sign : ∀ privateKey publicKey payload, keyPair privateKey publicKey →
    ∃ signature, crypto.sign privateKey payload = some signature ∧ (∀ b ∈ signature, b < 256) ∧
      crypto.verify publicKey payload signature = .ok true
  fromBase64 : ∀ bytes, (∀ b ∈ bytes, b < 256) →
    crypto.fromBase64 (Encoding.encodeBase64 bytes) = bytes

/-- The bundle is accepted. -/
def Accepts (crypto : PolicyCrypto) (bundle : SignedPolicyBundle) (key : String) : Prop :=
  crypto.verifySignedPolicy bundle key = some (.ok bundle.policy)

variable {crypto : PolicyCrypto} {keyPair : String → String → Prop}

/-- A call with a key that matches signs, and only the hash decides whether the bundle is
accepted. -/
theorem accepts_run_iff (h : crypto.KeysLawful keyPair) {call : Call} {key : String}
    (hkey : call.UnderKey keyPair key) {policy : Json}
    (hpolicy : call.policy.toJson = some policy) :
    ∃ bundle, call.run crypto = some bundle ∧
      (crypto.Accepts bundle key ↔ call.hash = crypto.hashOf policy) := by
  obtain ⟨signatureType, value, hash, callKey, keyId, now⟩ := call
  have hhash {P : Prop} (hP : P) : (∃ p, value.toJson = some p ∧ hash = crypto.hashOf p) ∧ P ↔
      hash = crypto.hashOf policy := by
    constructor
    · rintro ⟨⟨p, hp, hhash⟩, -⟩
      rw [hhash, Option.some.inj (hp.symm.trans hpolicy)]
    · intro hhash
      exact ⟨⟨policy, hpolicy, hhash⟩, hP⟩
  cases signatureType with
  | hmacSha256 =>
    obtain rfl : callKey = key := hkey
    refine ⟨_, rfl, verifySignedPolicy_eq_ok_iff.trans ?_⟩
    rw [eq_self, true_and]
    exact hhash (.inl ⟨rfl, verifyHmac_signPolicyHmac _ _ _ _ _⟩)
  | ed25519 =>
    obtain ⟨signature, hsign, hbytes, hverify⟩ := h.sign _ _
      (signedPayload hash "ed25519" (keyId.getD "default") now.toISOString) hkey
    refine ⟨_, Option.map_eq_some_iff.mpr ⟨signature, hsign, rfl⟩,
      verifySignedPolicy_eq_ok_iff.trans ?_⟩
    rw [eq_self, true_and]
    refine hhash (.inr ⟨rfl, ?_⟩)
    have hverified : crypto.verify key (signedPayload hash "ed25519" (keyId.getD "default")
        now.toISOString) (crypto.fromBase64 (Encoding.encodeBase64 signature)) = .ok true := by
      rw [h.fromBase64 _ hbytes]
      exact hverify
    simp only [verifyEd25519, h.keyType _ _ hkey, SignedPolicyBundle.payload, hverified]
    rfl

/-- What comes back from the store is accepted if and only if the bundle is. -/
theorem accepts_stored_iff {bundle : SignedPolicyBundle} {policy : Json}
    (hpolicy : bundle.policy.toJson = some policy)
    (hfinite : policy.All Json.IsFinite Json.Ordered) (key : String) :
    ∃ stored, bundle.stored = some stored ∧
      (crypto.Accepts stored key ↔ crypto.Accepts bundle key) := by
  refine ⟨_, SignedPolicyBundle.stored_eq hpolicy hfinite, ?_⟩
  have hsame : (JsValue.ofRead policy).toJson = bundle.policy.toJson := by
    rw [JsValue.toJson_ofRead, Json.written_eq_self hfinite, hpolicy]
  refine verifySignedPolicy_eq_ok_iff.trans (Iff.trans ?_ verifySignedPolicy_eq_ok_iff.symm)
  rw [eq_self, eq_self, hsame]
  rfl

/-- The bundle is accepted, and so is what comes back from the store. -/
def Survives (crypto : PolicyCrypto) (bundle : SignedPolicyBundle) (key : String) : Prop :=
  crypto.Accepts bundle key ∧ ∃ stored, bundle.stored = some stored ∧ crypto.Accepts stored key

section
variable {host : PolicyHost} {engine engine' : PolicyHolder} {filePath raw : String} {call : Call}
  {key : String}

/-- The two hashes are one if the texts are. -/
theorem survives_iff_text (hhash : crypto.HashLawful) (hkeys : crypto.KeysLawful keyPair)
    (hhost : host.computeHash = crypto.computeHash)
    (hfile : host.file (host.cwd.resolve filePath) = .text raw)
    (hload : engine.loadFromFile host filePath = (engine', .ok ()))
    (hpolicy : call.policy = engine'.getPolicy) (hcallHash : call.hash = engine'.getHash)
    (hkey : call.UnderKey keyPair key) :
    (∃ bundle, call.run crypto = some bundle ∧ crypto.Survives bundle key) ↔
      raw = engine'.policy.text := by
  obtain ⟨parsed, hread, hvalid, hloaded⟩ := PolicyHolder.loadFromFile_eq_ok hfile hload
  have hjson : call.policy.toJson = some engine'.policy.json.written := by
    rw [hpolicy]
    exact engine'.policy.toJson_value
  have hsame : call.hash = crypto.hashOf engine'.policy.json.written ↔
      raw = engine'.policy.text := by
    rw [hcallHash, PolicyHolder.getHash, hloaded, hhost]
    exact hhash.injective.eq_iff
  obtain ⟨bundle, hrun, haccepts⟩ := accepts_run_iff hkeys hkey hjson
  have hbundle : bundle.policy.toJson = some engine'.policy.json.written := by
    rw [(Call.run_eq hrun).1, hjson]
  have hfinite := Json.all_written (Policy.all_validatePolicy hvalid (Json.all_read hread))
  obtain ⟨stored, hstored, hagree⟩ := accepts_stored_iff hbundle hfinite key
  rw [← hsame, ← haccepts]
  constructor
  · rintro ⟨bundle', hrun', haccepted, -⟩
    rwa [Option.some.inj (hrun.symm.trans hrun')]
  · intro haccepted
    exact ⟨bundle, hrun, haccepted, stored, hstored, hagree.mpr haccepted⟩

/-- The bundle that is made of a policy that was loaded, with its hash, is accepted with the key
that matches, and again after it was stored, if and only if the file holds what `JSON.stringify`
writes for a policy. -/
theorem loadFromFile_survives_iff (hhash : crypto.HashLawful) (hkeys : crypto.KeysLawful keyPair)
    (hhost : host.computeHash = crypto.computeHash)
    (hfile : host.file (host.cwd.resolve filePath) = .text raw)
    (hload : engine.loadFromFile host filePath = (engine', .ok ()))
    (hpolicy : call.policy = engine'.getPolicy) (hcallHash : call.hash = engine'.getHash)
    (hkey : call.UnderKey keyPair key) :
    (∃ bundle, call.run crypto = some bundle ∧ crypto.Survives bundle key) ↔ IsPolicyText raw := by
  rw [survives_iff_text hhash hkeys hhost hfile hload hpolicy hcallHash hkey]
  exact PolicyHolder.text_eq_iff hfile hload

end

/-! ### Two files with one policy -/

theorem plainCrypto_keysLawful : plainCrypto.KeysLawful Eq where
  keyType := fun _ _ _ => rfl
  sign := by
    rintro key _ payload rfl
    refine ⟨_, rfl, fun b hb => ?_, ?_⟩
    · simp only [codeBytes, List.mem_flatMap, List.mem_cons, List.not_mem_nil, or_false] at hb
      obtain ⟨c, -, rfl | rfl | rfl⟩ := hb <;> exact Nat.mod_lt _ (by decide)
    · exact congrArg Except.ok (decide_eq_true rfl)
  fromBase64 := fun _ => Encoding.decodeBase64_encodeBase64

/-- A host with one file. -/
private def fileHost (raw : String) : PolicyHost where
  cwd := .root
  file _ := .text raw
  computeHash := unaryHash
  syntaxError _ := "Unexpected token"

private def loadedCall (raw : String) : Call where
  signatureType := .ed25519
  policy := Policy.default.value
  hash := unaryHash raw
  key := "private"
  keyId := none
  now := ⟨2024, 1, 1, 0, 0, 0, 0⟩

private theorem loadedCall_spec (raw : String) :
    (loadedCall raw).policy = (⟨Policy.default, unaryHash raw⟩ : PolicyHolder).getPolicy ∧
      (loadedCall raw).hash = (⟨Policy.default, unaryHash raw⟩ : PolicyHolder).getHash ∧
      (loadedCall raw).UnderKey Eq "private" := ⟨rfl, rfl, rfl⟩

/-- The default policy is loaded from its text, whatever white space follows. -/
private theorem loadFromFile_default {space : List Char} (hspace : Json.skipSpace space = [])
    (hstops : Json.Stops space) {raw : String}
    (hraw : raw = Policy.default.text ++ String.ofList space) :
    (PolicyHolder.new unaryHash none).loadFromFile (fileHost raw) "policy.json" =
      (⟨Policy.default, unaryHash raw⟩, .ok ()) := by
  have hread : Json.read raw = some Policy.default.json := by
    have hwritten := Json.written_eq_self Policy.all_default
    have hparse := Json.parse_stringify_append (Json.wellFormed_of_finite Policy.all_default) hspace
      hstops
    rw [String.ofList_append] at hparse
    rw [hraw, Policy.text, hwritten, Json.read, hparse, Option.map_some,
      Json.held_eq_self (fun _ => And.left) Policy.all_default]
  have hvalid := Policy.validatePolicy_json Policy.default (le_refl 1)
  simp only [PolicyHolder.loadFromFile, fileHost, hread, hvalid]

/-- The policy of a file without white space can be signed and verified. -/
theorem default_survives : ∃ bundle,
    (loadedCall Policy.default.text).run plainCrypto = some bundle ∧
      plainCrypto.Survives bundle "private" := by
  obtain ⟨hpolicy, hhash, hkey⟩ := loadedCall_spec Policy.default.text
  have hload := @loadFromFile_default [] rfl Json.stops_nil Policy.default.text (by simp)
  have hfile : (fileHost Policy.default.text).file ((fileHost Policy.default.text).cwd.resolve
      "policy.json") = .text Policy.default.text := rfl
  refine (loadFromFile_survives_iff plainCrypto_lawful plainCrypto_keysLawful rfl hfile hload
    hpolicy hhash hkey).mpr ?_
  exact ⟨Policy.default, le_refl 1, Policy.all_default, rfl⟩

/-- With a newline behind it, the bundle of the same policy is refused. -/
theorem default_newline_refused :
    ¬∀ (crypto : PolicyCrypto) (keyPair : String → String → Prop), crypto.HashLawful →
      crypto.KeysLawful keyPair → ∀ (host : PolicyHost), host.computeHash = crypto.computeHash →
      ∀ (engine engine' : PolicyHolder) (filePath raw : String),
      host.file (host.cwd.resolve filePath) = .text raw →
      engine.loadFromFile host filePath = (engine', .ok ()) → ∀ (call : Call) (key : String),
      call.policy = engine'.getPolicy → call.hash = engine'.getHash → call.UnderKey keyPair key →
      ∃ bundle, call.run crypto = some bundle ∧ crypto.Survives bundle key := by
  intro h
  obtain ⟨raw, hraw⟩ : ∃ raw, raw = Policy.default.text ++ "\n" := ⟨_, rfl⟩
  obtain ⟨hpolicy, hhash, hkey⟩ := loadedCall_spec raw
  have hfile : (fileHost raw).file ((fileHost raw).cwd.resolve "policy.json") = .text raw := rfl
  have hload := @loadFromFile_default ['\n'] rfl (Json.stops_of (by decide) []) raw hraw
  have hsurvives := h plainCrypto Eq plainCrypto_lawful plainCrypto_keysLawful (fileHost raw) rfl
    _ _ "policy.json" raw hfile hload (loadedCall raw) "private" hpolicy hhash hkey
  have htext : raw = Policy.default.text := (survives_iff_text plainCrypto_lawful
    plainCrypto_keysLawful rfl hfile hload hpolicy hhash hkey).mp hsurvives
  have hnewline : '\n' ∈ Policy.default.text.toList := by
    rw [← htext, hraw]
    simp
  rw [Policy.text, String.toList_ofList] at hnewline
  exact Json.newline_notMem_stringify _ hnewline

end PolicyCrypto

end KirkForge
