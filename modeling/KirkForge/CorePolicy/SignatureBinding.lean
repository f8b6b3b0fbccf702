import KirkForge.CorePolicy.Policy
import KirkForge.CorePolicy.SignedPolicy
import KirkForge.Theory.Lists

/-!
# What a signature binds

A payload determines the hash and the type of the signature, but of the key id and the time only the
text that they have when they are joined by a colon: a colon may be moved from one to the other. The
time that is signed has two colons, and so has the time of a bundle exactly if nothing was moved.
Besides, the hash that is signed is what the caller passes, and binds its policy only if it is the
hash of the policy.
-/

namespace KirkForge

/-- JSON gives back what it keeps of the value. That is so for all values of a program: keys are
distinct and finite numbers are decimal fractions. -/
def JsValue.Readable (value : JsValue) : Prop := ∀ j, value.toJson = some j → j.WellFormed

namespace PolicyCrypto

/-- What is assumed of SHA-256: it has no collisions, and its text is hexadecimal. -/
structure HashLawful (crypto : PolicyCrypto) : Prop where
  injective : Function.Injective crypto.computeHash
  hex : ∀ text, ∀ c ∈ (crypto.computeHash text).toList, c ∈ "0123456789abcdef".toList

/-- What a payload is made from. -/
structure Signable where
  policy : Json
  wellFormed : policy.WellFormed
  signatureType : SignatureType
  keyId : String
  signedAt : String

namespace Signable

def payload (crypto : PolicyCrypto) (f : Signable) : String :=
  signedPayload (crypto.hashOf f.policy) f.signatureType.text f.keyId f.signedAt

/-- The key id and the time as they stand in the payload. -/
def joined (f : Signable) : String := f.keyId ++ ":" ++ f.signedAt

end Signable

section
variable (crypto : PolicyCrypto) (keyPair : String → String → Prop)

/-- The call was made with the key that verifies, or with the private key to it. -/
def Call.UnderKey (call : Call) (key : String) : Prop :=
  match call.signatureType with
  | .hmacSha256 => call.key = key
  | .ed25519 => keyPair call.key key

/-- The call has signed the payload of the bundle. -/
def Call.Vouches (call : Call) (bundle : SignedPolicyBundle) (key : String) : Prop :=
  ∃ signed, call.run crypto = some signed ∧ call.UnderKey keyPair key ∧
    signed.signatureType = bundle.signatureType ∧ signed.payload = bundle.payload

/-- The hash that was passed is that of the policy. -/
def Call.HashesPolicy (call : Call) : Prop :=
  ∃ policy, call.policy.toJson = some policy ∧ call.hash = crypto.hashOf policy

/-- The signature of the bundle is not forged: if it is valid then the payload has been signed. -/
def Unforged (calls : List Call) (bundle : SignedPolicyBundle) (key : String) : Prop :=
  (∃ result, crypto.verifySignedPolicy bundle key = some (.ok result)) →
    ∃ call ∈ calls, call.Vouches crypto keyPair bundle key

/-- The call has signed a bundle with the fields of this one. -/
def Call.Signs (call : Call) (bundle : SignedPolicyBundle) (key : String) : Prop :=
  ∃ signed, call.run crypto = some signed ∧ call.UnderKey keyPair key ∧
    signed.policy.toJson = bundle.policy.toJson ∧ signed.hash = bundle.hash ∧
    signed.signatureType = bundle.signatureType ∧ signed.keyId = bundle.keyId ∧
    signed.signedAt = bundle.signedAt

end

variable {crypto : PolicyCrypto} {keyPair : String → String → Prop} {call : Call}
  {bundle : SignedPolicyBundle} {key : String}

/-! ### Payloads -/

theorem toList_signedPayload (hash signatureType keyId signedAt : String) :
    (signedPayload hash signatureType keyId signedAt).toList =
      hash.toList ++ ':' :: (signatureType.toList ++ ':' :: (keyId ++ ":" ++ signedAt).toList) := by
  simp [signedPayload]

theorem HashLawful.hashOf_inj (h : crypto.HashLawful) {p q : Json} (hp : p.WellFormed)
    (hq : q.WellFormed) (heq : crypto.hashOf p = crypto.hashOf q) : p = q := by
  have hparse := congrArg Json.parse (h.injective heq)
  rw [Json.parse_stringify hp, Json.parse_stringify hq] at hparse
  exact Option.some.inj hparse

theorem HashLawful.colon_notMem (h : crypto.HashLawful) (policy : Json) :
    ':' ∉ (crypto.hashOf policy).toList := by
  intro hmem
  exact absurd (h.hex _ ':' hmem) (by decide)

theorem signatureType_inj {a b : SignatureType} (h : a.text = b.text) : a = b := by
  cases a <;> cases b
  · rfl
  · exact absurd h (by decide)
  · exact absurd h (by decide)
  · rfl

/-- Payloads are equal exactly if the policies and the types are, and the key ids and the times have
the same text when they are joined. -/
theorem Signable.payload_eq_iff (h : crypto.HashLawful) {f g : Signable} :
    f.payload crypto = g.payload crypto ↔
      f.policy = g.policy ∧ f.signatureType = g.signatureType ∧ f.joined = g.joined := by
  have htype (t : SignatureType) : ':' ∉ t.text.toList := by cases t <;> decide
  rw [payload, payload, ← String.toList_inj, toList_signedPayload, toList_signedPayload,
    Lists.append_cons_inj (h.colon_notMem _) (h.colon_notMem _),
    Lists.append_cons_inj (htype _) (htype _), String.toList_inj, String.toList_inj,
    String.toList_inj]
  constructor
  · rintro ⟨hhash, htext, hjoined⟩
    exact ⟨h.hashOf_inj f.wellFormed g.wellFormed hhash, signatureType_inj htext, hjoined⟩
  · rintro ⟨hpolicy, htext, hjoined⟩
    rw [hpolicy, htext]
    exact ⟨rfl, rfl, hjoined⟩

/-- Joined texts are told apart if the times have as many colons. -/
theorem joined_inj {k k' t t' : String} (hcolons : UtcTime.colons t = UtcTime.colons t') :
    k ++ ":" ++ t = k' ++ ":" ++ t' ↔ k = k' ∧ t = t' := by
  have hlist (k t : String) : (k ++ ":" ++ t).toList = k.toList ++ ':' :: t.toList := by simp
  rw [← String.toList_inj, hlist, hlist, Lists.append_cons_inj_of_count hcolons, String.toList_inj,
    String.toList_inj]

/-! ### Bundles -/

theorem colons_of_signs (h : call.Signs crypto keyPair bundle key) :
    UtcTime.colons bundle.signedAt = 2 := by
  obtain ⟨signed, hrun, -, -, -, -, -, hsignedAt⟩ := h
  obtain ⟨-, -, -, -, htime⟩ := Call.run_eq hrun
  rw [← hsignedAt, htime]
  exact UtcTime.colons_toISOString call.now

/-- A call that has signed the payload of an accepted bundle and was given the hash of its policy
has signed the bundle, unless a colon was moved. -/
theorem Call.Vouches.signs (h : crypto.HashLawful)
    (hvouches : call.Vouches crypto keyPair bundle key) (hcall : call.policy.Readable)
    (hhashes : call.HashesPolicy crypto) {policy : Json}
    (hbundle : bundle.policy.Readable) (hpolicy : bundle.policy.toJson = some policy)
    (hhash : bundle.hash = crypto.hashOf policy) (hcolons : UtcTime.colons bundle.signedAt = 2) :
    call.Signs crypto keyPair bundle key := by
  obtain ⟨signed, hrun, hunder, htype, hpayload⟩ := hvouches
  obtain ⟨hsame, hcallHash, hcallType, -, hcallTime⟩ := Call.run_eq hrun
  obtain ⟨signedPolicy, hsigned, hcallHash'⟩ := hhashes
  let f : Signable :=
    ⟨signedPolicy, hcall _ hsigned, call.signatureType, signed.keyId, signed.signedAt⟩
  let g : Signable := ⟨policy, hbundle _ hpolicy, call.signatureType, bundle.keyId, bundle.signedAt⟩
  have hfg : f.payload crypto = g.payload crypto := by
    have hf : signed.payload = f.payload crypto := by
      rw [SignedPolicyBundle.payload, hcallHash, hcallHash', hcallType]
      rfl
    have hg : bundle.payload = g.payload crypto := by
      rw [SignedPolicyBundle.payload, hhash, ← htype, hcallType]
      rfl
    rw [← hf, ← hg, hpayload]
  obtain ⟨hpolicies, -, hjoined⟩ := (Signable.payload_eq_iff h).mp hfg
  have htimes : UtcTime.colons signed.signedAt = UtcTime.colons bundle.signedAt := by
    rw [hcolons, hcallTime]
    exact UtcTime.colons_toISOString call.now
  obtain ⟨hkeyId, hsignedAt⟩ := (joined_inj htimes).mp hjoined
  have hpolicies : signedPolicy = policy := hpolicies
  refine ⟨signed, hrun, hunder, ?_, ?_, htype, hkeyId, hsignedAt⟩
  · rw [hsame, hsigned, hpolicy, hpolicies]
  · rw [hcallHash, hcallHash', hhash, hpolicies]

/-- The other way round, whoever signs a bundle that is accepted passes the hash of its policy. -/
theorem Call.Signs.vouches (h : call.Signs crypto keyPair bundle key) {policy : Json}
    (hpolicy : bundle.policy.toJson = some policy) (hhash : bundle.hash = crypto.hashOf policy) :
    call.Vouches crypto keyPair bundle key ∧ call.HashesPolicy crypto := by
  obtain ⟨signed, hrun, hunder, hsame, hsignedHash, htype, hkeyId, hsignedAt⟩ := h
  obtain ⟨hcallPolicy, hcallHash, -⟩ := Call.run_eq hrun
  refine ⟨⟨signed, hrun, hunder, htype, ?_⟩, policy, ?_, ?_⟩
  · rw [SignedPolicyBundle.payload, SignedPolicyBundle.payload, hsignedHash, htype, hkeyId,
      hsignedAt]
  · rw [← hcallPolicy, hsame, hpolicy]
  · rw [← hcallHash, hsignedHash, hhash]

/-- A bundle that is accepted was signed with all of its fields if and only if its time has two
colons and a call that has signed its payload was given the hash of its policy; where all calls are,
and no signature is forged, the colons alone decide. Two payloads tell what they are made from apart
if and only if no colon is moved between a key id and a time. -/
theorem verifySignedPolicy_binds_iff (h : crypto.HashLawful) :
    (∀ (keyPair : String → String → Prop) (calls : List Call) (bundle : SignedPolicyBundle)
        (key : String) (result : JsValue), (∀ call ∈ calls, call.policy.Readable) →
      bundle.policy.Readable → crypto.verifySignedPolicy bundle key = some (.ok result) →
      ((∃ call ∈ calls, call.Signs crypto keyPair bundle key) ↔
          UtcTime.colons bundle.signedAt = 2 ∧
            ∃ call ∈ calls, call.Vouches crypto keyPair bundle key ∧ call.HashesPolicy crypto) ∧
        ((∀ call ∈ calls, call.HashesPolicy crypto) → Unforged crypto keyPair calls bundle key →
          ((∃ call ∈ calls, call.Signs crypto keyPair bundle key) ↔
            UtcTime.colons bundle.signedAt = 2))) ∧
    ∀ f g : Signable,
      (f.payload crypto = g.payload crypto →
        f.policy = g.policy ∧ f.signatureType = g.signatureType ∧ f.keyId = g.keyId ∧
          f.signedAt = g.signedAt) ↔
      (f.policy = g.policy → f.signatureType = g.signatureType → f.joined = g.joined →
        UtcTime.colons f.signedAt = UtcTime.colons g.signedAt) := by
  constructor
  · intro keyPair calls bundle key result hcalls hbundle hverify
    obtain ⟨policy, hpolicy, hhash, -⟩ := verifySignedPolicy_eq_ok hverify
    have hiff : (∃ call ∈ calls, call.Signs crypto keyPair bundle key) ↔
        UtcTime.colons bundle.signedAt = 2 ∧
          ∃ call ∈ calls, call.Vouches crypto keyPair bundle key ∧ call.HashesPolicy crypto := by
      constructor
      · rintro ⟨call, hcall, hsigns⟩
        exact ⟨colons_of_signs hsigns, call, hcall, hsigns.vouches hpolicy hhash⟩
      · rintro ⟨hcolons, call, hcall, hvouches, hhashes⟩
        exact ⟨call, hcall,
          hvouches.signs h (hcalls call hcall) hhashes hbundle hpolicy hhash hcolons⟩
    refine ⟨hiff, fun hhashes hunforged => hiff.trans (and_iff_left ?_)⟩
    obtain ⟨call, hcall, hvouches⟩ := hunforged ⟨result, hverify⟩
    exact ⟨call, hcall, hvouches, hhashes call hcall⟩
  · intro f g
    rw [Signable.payload_eq_iff h]
    constructor
    · intro hbinds hpolicy htype hjoined
      rw [(hbinds ⟨hpolicy, htype, hjoined⟩).2.2.2]
    · rintro hcolons ⟨hpolicy, htype, hjoined⟩
      exact ⟨hpolicy, htype, (joined_inj (hcolons hpolicy htype hjoined)).mp hjoined⟩

/-! ### A moved colon -/

/-- A text in hexadecimal digits, one after the other by their codes. -/
def unaryHash (text : String) : String :=
  String.ofList (text.toList.flatMap fun c => List.replicate c.toNat '1' ++ ['0'])

/-- The bytes of a text, three for each character. -/
def codeBytes (text : String) : List Nat :=
  text.toList.flatMap fun c => [c.toNat / 65536 % 256, c.toNat / 256 % 256, c.toNat % 256]

/-- A stand-in in which a signature is the text that it is made from. -/
def plainCrypto : PolicyCrypto where
  computeHash := unaryHash
  hmac secret payload := codeBytes (secret ++ "\n" ++ payload)
  sign privateKeyPem payload := some (codeBytes (privateKeyPem ++ "\n" ++ payload))
  keyType _ := some "ed25519"
  verify publicKeyPem payload signature :=
    .ok (signature = codeBytes (publicKeyPem ++ "\n" ++ payload))
  fromBase64 := Encoding.decodeBase64

theorem plainCrypto_lawful : plainCrypto.HashLawful where
  injective := by
    intro s t h
    have hlist := congrArg String.toList h
    rw [← String.toList_inj]
    simp only [plainCrypto, unaryHash, String.toList_ofList] at hlist
    generalize s.toList = cs at hlist ⊢
    generalize t.toList = ds at hlist ⊢
    induction cs generalizing ds with
    | nil =>
      cases ds with
      | nil => rfl
      | cons d ds => simp at hlist
    | cons c cs ih =>
      cases ds with
      | nil => simp at hlist
      | cons d ds =>
        have hzero (c : Char) : '0' ∉ List.replicate c.toNat '1' := fun h =>
          absurd (List.eq_of_mem_replicate h) (by decide)
        simp only [List.flatMap_cons, List.append_assoc, List.singleton_append] at hlist
        obtain ⟨hcode, hrest⟩ := (Lists.append_cons_inj (hzero c) (hzero d)).mp hlist
        have hlength := congrArg List.length hcode
        rw [List.length_replicate, List.length_replicate] at hlength
        rw [Char.toNat_inj.mp hlength, ih ds hrest]
  hex text c hc := by
    simp only [plainCrypto, unaryHash, String.toList_ofList, List.mem_flatMap, List.mem_append,
      List.mem_singleton] at hc
    obtain ⟨_, -, hc | rfl⟩ := hc
    · rw [List.eq_of_mem_replicate hc]
      decide
    · decide

private theorem readable_default : Policy.default.value.Readable := by
  intro j hj
  obtain rfl := Option.some.inj (Policy.default.toJson_value.symm.trans hj)
  rw [Json.written_eq_self Policy.all_default]
  exact Json.wellFormed_of_finite Policy.all_default

/-- A call as the policy administrator makes it. -/
private def exampleCall : Call where
  signatureType := .hmacSha256
  policy := (PolicyHolder.new unaryHash none).getPolicy
  hash := (PolicyHolder.new unaryHash none).getHash
  key := "test-secret-key"
  keyId := none
  now := ⟨2024, 1, 1, 0, 0, 0, 0⟩

private def exampleBundle : SignedPolicyBundle :=
  plainCrypto.signPolicyHmac exampleCall.policy exampleCall.hash exampleCall.key exampleCall.keyId
    exampleCall.now

/-- Its bundle, with the hour moved to the key id. -/
private def movedBundle : SignedPolicyBundle :=
  { exampleBundle with keyId := "default:2024-01-01T00", signedAt := "00:00.000Z" }

private theorem exampleCall_hashesPolicy : exampleCall.HashesPolicy plainCrypto :=
  ⟨Policy.default.json.written, Policy.default.toJson_value, rfl⟩

private theorem exampleBundle_accepted :
    plainCrypto.verifySignedPolicy exampleBundle "test-secret-key" =
      some (.ok exampleCall.policy) :=
  verifySignedPolicy_eq_ok_iff.mpr ⟨rfl, ⟨_, Policy.default.toJson_value, rfl⟩,
    .inl ⟨rfl, verifyHmac_signPolicyHmac _ _ _ _ _⟩⟩

private theorem movedBundle_joined : "default:2024-01-01T00" ++ ":" ++ "00:00.000Z" =
    exampleBundle.keyId ++ ":" ++ exampleBundle.signedAt := by decide

private theorem exampleCall_vouches {bundle : SignedPolicyBundle}
    (htype : bundle.signatureType = "hmac-sha256")
    (hpayload : bundle.payload = exampleBundle.payload) :
    exampleCall.Vouches plainCrypto Eq bundle "test-secret-key" :=
  ⟨exampleBundle, rfl, rfl, htype.symm, hpayload.symm⟩

/-- The bundle of a call was signed with all of its fields. -/
theorem exampleBundle_signed : ∃ call ∈ [exampleCall],
    call.Signs plainCrypto Eq exampleBundle "test-secret-key" := by
  refine ((verifySignedPolicy_binds_iff plainCrypto_lawful).1 Eq [exampleCall] exampleBundle
    "test-secret-key" _ (List.forall_mem_singleton.mpr readable_default) readable_default
    exampleBundle_accepted).1.mpr
      ⟨by decide, exampleCall, List.mem_singleton_self _, ?_, ?_⟩
  · exact exampleCall_vouches rfl rfl
  · exact exampleCall_hashesPolicy

/-- The bundle with the moved colon is accepted, although nothing was ever signed with its key id or
its time, and it shares its payload with the bundle that was. -/
theorem movedBundle_not_signed :
    (¬∀ (crypto : PolicyCrypto), crypto.HashLawful →
      ∀ (keyPair : String → String → Prop) (calls : List Call) (bundle : SignedPolicyBundle)
        (key : String) (result : JsValue), (∀ call ∈ calls, call.policy.Readable) →
      bundle.policy.Readable → (∀ call ∈ calls, call.HashesPolicy crypto) →
      Unforged crypto keyPair calls bundle key →
      crypto.verifySignedPolicy bundle key = some (.ok result) →
      ∃ call ∈ calls, ∃ signed, call.run crypto = some signed ∧ call.UnderKey keyPair key ∧
        signed.policy.toJson = bundle.policy.toJson ∧
        signed.signatureType = bundle.signatureType ∧ signed.keyId = bundle.keyId ∧
        signed.signedAt = bundle.signedAt) ∧
    ¬∀ (crypto : PolicyCrypto), crypto.HashLawful → ∀ f g : Signable,
      f.payload crypto = g.payload crypto → f.policy = g.policy ∧ f.keyId = g.keyId ∧
        f.signedAt = g.signedAt := by
  constructor
  · intro h
    obtain ⟨call, hcall, signed, hrun, -, -, -, hkeyId, -⟩ := h plainCrypto plainCrypto_lawful Eq
      [exampleCall] movedBundle "test-secret-key" _ (List.forall_mem_singleton.mpr readable_default)
      readable_default (List.forall_mem_singleton.mpr exampleCall_hashesPolicy)
      (fun _ => ⟨exampleCall, List.mem_singleton_self _,
        exampleCall_vouches rfl (@payload_moved exampleBundle _ _ movedBundle_joined)⟩)
      ((@verifySignedPolicy_moved plainCrypto exampleBundle _ _ movedBundle_joined _).trans
        exampleBundle_accepted)
    obtain rfl := List.mem_singleton.mp hcall
    obtain rfl := Option.some.inj hrun
    exact absurd hkeyId (by decide)
  · intro h
    have hdefault := readable_default _ Policy.default.toJson_value
    let f : Signable := ⟨_, hdefault, .hmacSha256, "default:2024-01-01T00", "00:00.000Z"⟩
    let g : Signable := ⟨_, hdefault, .hmacSha256, "default", exampleCall.now.toISOString⟩
    obtain ⟨-, hkeyId, -⟩ := h plainCrypto plainCrypto_lawful f g
      (@payload_moved exampleBundle _ _ movedBundle_joined)
    exact absurd (show "default:2024-01-01T00" = "default" from hkeyId) (by decide)

end PolicyCrypto

end KirkForge
