import KirkForge.CoreSecrets.TenantKeyProvider
import KirkForge.Theory.Run

/-!
# Key rotation

A history of a `TenantKeyProvider`: encryptions and decryptions, rotations, cleared caches and
restarts with the same master key. The versions of a tenant stand in the cache alone, so a cache
that is cleared after a rotation starts again with the first version. As long as this happens to
tenants that were never rotated only, the last versions of every tenant decrypt and the latest one
encrypts (`keysKept_iff`).
-/

namespace KirkForge

open TenantKeyProvider

/-- What `encryptForTenant` returned, under which version and for what. -/
structure IssuedCiphertext where
  tenantId : String
  version : Nat
  plaintext : String
  text : String

/-- The provider, the ciphertexts that it returned, and the version that the latest rotation of each
tenant made, 1 before the first. -/
structure KeyHistory where
  provider : TenantKeyProvider
  issued : List IssuedCiphertext
  latest : String → Nat

inductive KeyInput
  /-- With the bytes that `randomBytes` gives. -/
  | encryptForTenant (tenantId plaintext : String) (iv : Bytes)
  | decryptForTenant (tenantId ciphertext : String)
  | rotateKey (tenantId : String)
  | clearCache
  | clearTenantCache (tenantId : String)
  | restart

/-- The version of `getCurrentKey`, if there is one. -/
def TenantKeyProvider.currentVersion (crypto : KeyCrypto) (tenantId : String)
    (provider : TenantKeyProvider) : Option Nat :=
  (provider.getVersions crypto tenantId).2.getLast?.map TenantKeyVersion.version

namespace KeyHistory

def init (masterKey : Bytes) (activeKeyVersions : JsNumber) : KeyHistory where
  provider := { masterKey, activeKeyVersions }
  issued := []
  latest := fun _ => 1

variable (cipher : KeyCipher)

def step (s : KeyHistory) : KeyInput → KeyHistory
  | .encryptForTenant tenantId plaintext iv =>
    let r := s.provider.encryptForTenant cipher.toKeyCrypto tenantId plaintext iv
    { s with
      provider := r.1
      issued := s.issued ++
        match s.provider.currentVersion cipher.toKeyCrypto tenantId, r.2 with
        | some version, .ok text => [{ tenantId, version, plaintext, text }]
        | _, _ => [] }
  | .decryptForTenant tenantId ciphertext =>
    { s with provider := (s.provider.decryptForTenant cipher tenantId ciphertext).1 }
  | .rotateKey tenantId =>
    { s with
      provider := s.provider.rotateKey cipher.toKeyCrypto tenantId
      latest := Function.update s.latest tenantId
        (nextVersion (s.provider.getVersions cipher.toKeyCrypto tenantId).2) }
  | .clearCache => { s with provider := s.provider.clearCache }
  | .clearTenantCache tenantId => { s with provider := s.provider.clearTenantCache tenantId }
  | .restart =>
    { s with
      provider :=
        { masterKey := s.provider.masterKey, activeKeyVersions := s.provider.activeKeyVersions } }

/-- The version is one of the last `activeKeyVersions` of the tenant. -/
def AmongLast (s : KeyHistory) (tenantId : String) (version : Nat) : Prop :=
  version ≤ s.latest tenantId ∧
    JsNumber.le (s.latest tenantId + 1 - version : Nat) s.provider.activeKeyVersions = true

/-- What the history promises: the last versions decrypt, and no encryption is under a version older
than the latest rotation. -/
structure KeysKept (s : KeyHistory) : Prop where
  decrypts : ∀ c ∈ s.issued, s.AmongLast c.tenantId c.version →
    (s.provider.decryptForTenant cipher c.tenantId c.text).2 = .ok c.plaintext
  current : ∀ tenantId version,
    s.provider.currentVersion cipher.toKeyCrypto tenantId = some version →
    s.latest tenantId ≤ version

/-- Only versions of tenants that were never rotated are dropped from the cache. -/
def DropsUnrotated (s : KeyHistory) : KeyInput → Prop
  | .clearCache | .restart => ∀ tenantId, s.latest tenantId = 1
  | .clearTenantCache tenantId => s.latest tenantId = 1
  | _ => True

/-! ### Versions in a row -/

/-- The versions are those up to the latest one, and as many as are to be kept. -/
structure Numbered (limit : JsNumber) (latest : Nat) (versions : List TenantKeyVersion) : Prop where
  length_le : versions.length ≤ latest
  versions_eq : versions.map TenantKeyVersion.version =
    List.range' (latest + 1 - versions.length) versions.length
  kept : ∀ k ≤ latest, JsNumber.le (k : Nat) limit = true → k ≤ versions.length

section Numbered

variable {limit : JsNumber} {latest : Nat} {versions kept : List TenantKeyVersion}

theorem le_of_natCast_le {a b : Nat} (h : a ≤ b) (hb : JsNumber.le (b : Nat) limit = true) :
    JsNumber.le (a : Nat) limit = true := by
  cases limit with
  | finite q =>
    have hq : (b : ℚ) ≤ q := of_decide_eq_true hb
    exact decide_eq_true (le_trans (Nat.cast_le.mpr h) hq)
  | posInf => rfl
  | negInf => exact nomatch hb
  | nan => exact nomatch hb

theorem not_gt_of_le {a : Nat} (h : JsNumber.le (a : Nat) limit = true) :
    JsNumber.gt (a : Nat) limit = false := by
  rw [JsNumber.gt, h]
  rfl

/-- As many versions as may be kept are not dropped. -/
theorem le_length_pruneOldVersions {k : Nat} (hk : JsNumber.le (k : Nat) limit = true)
    (hlen : k ≤ versions.length) : k ≤ (pruneOldVersions limit versions).length := by
  induction versions with
  | nil => exact hlen
  | cons oldest versions ih =>
    rw [pruneOldVersions]
    split
    · next hgt =>
      refine ih (Nat.le_of_lt_succ (Nat.lt_of_le_of_ne hlen ?_))
      rintro rfl
      have hnot : JsNumber.gt (versions.length + 1 : Nat) limit = false := not_gt_of_le hk
      rw [hgt] at hnot
      cases hnot
    · exact hlen

theorem numbered_one (v : TenantKeyVersion) (h : v.version = 1) : Numbered limit 1 [v] where
  length_le := Nat.le_refl 1
  versions_eq := by rw [List.map_singleton, h]; rfl
  kept _ hk _ := hk

theorem Numbered.getLast (h : Numbered limit latest versions) {v : TenantKeyVersion}
    (hv : versions.getLast? = some v) : v.version = latest := by
  have hlast := congrArg List.getLast? h.versions_eq
  rw [List.getLast?_map, hv, Option.map_some, List.getLast?_range'] at hlast
  split at hlast
  · exact nomatch hlast
  · have hversion := Option.some.inj hlast
    have hlen := h.length_le
    omega

theorem Numbered.mem (h : Numbered limit latest versions) {n : Nat} (hpos : 1 ≤ n)
    (hn : n ≤ latest) (hk : JsNumber.le (latest + 1 - n : Nat) limit = true) :
    n ∈ versions.map TenantKeyVersion.version := by
  have hlen := h.kept (latest + 1 - n) (by omega) hk
  rw [h.versions_eq, List.mem_range'_1]
  have hle := h.length_le
  omega

/-- Dropping the oldest versions leaves those up to the latest. -/
theorem Numbered.suffix {all : List TenantKeyVersion} (hlen : all.length ≤ latest)
    (hall : all.map TenantKeyVersion.version = List.range' (latest + 1 - all.length) all.length)
    (hsuffix : kept <:+ all) : kept.length ≤ latest ∧
      kept.map TenantKeyVersion.version = List.range' (latest + 1 - kept.length) kept.length := by
  have hle := hsuffix.length_le
  refine ⟨hle.trans hlen, ?_⟩
  rw [List.suffix_iff_eq_drop.mp hsuffix, List.map_drop, hall, List.drop_range', List.length_drop]
  congr 1
  omega

/-- A rotation makes the next version the latest. -/
theorem Numbered.rotate (h : Numbered limit latest versions) {v : TenantKeyVersion}
    (hv : v.version = nextVersion versions) :
    Numbered limit (nextVersion versions) (pruneOldVersions limit (versions ++ [v])) := by
  have hlen : (versions ++ [v]).length = versions.length + 1 := by simp
  have hsuffix := pruneOldVersions_suffix limit (versions ++ [v])
  cases hlast : versions.getLast? with
  | none =>
    obtain rfl := List.getLast?_eq_none_iff.mp hlast
    have hone : ([] ++ [v]).map TenantKeyVersion.version =
        List.range' (1 + 1 - ([] ++ [v]).length) ([] ++ [v]).length := by
      simp [hv, nextVersion]
    have hsingle : ([] ++ [v]).length ≤ 1 := Nat.le_refl 1
    obtain ⟨hle, hversions⟩ := Numbered.suffix hsingle hone hsuffix
    exact ⟨hle, hversions, fun k hk hlimit => le_length_pruneOldVersions hlimit hk⟩
  | some last =>
    have hnext : nextVersion versions = latest + 1 := by
      rw [nextVersion, hlast]
      exact congrArg (· + 1) (h.getLast hlast)
    rw [hnext] at hv ⊢
    have hle := h.length_le
    have hall : (versions ++ [v]).map TenantKeyVersion.version =
        List.range' (latest + 1 + 1 - (versions ++ [v]).length) (versions ++ [v]).length := by
      have hstart : latest + 1 - versions.length + versions.length = latest + 1 := by omega
      have hnew : latest + 1 + 1 - (versions.length + 1) = latest + 1 - versions.length := by omega
      rw [List.map_append, h.versions_eq, hlen, hnew, List.range'_1_concat, hstart, ← hv]
      rfl
    obtain ⟨hlength, hversions⟩ := Numbered.suffix (by omega) hall hsuffix
    refine ⟨hlength, hversions, fun k hk hlimit => le_length_pruneOldVersions hlimit ?_⟩
    rcases Nat.le_or_eq_of_le_succ hk with hk | rfl
    · have := h.kept k hk hlimit
      omega
    · have := h.kept latest (Nat.le_refl _) (le_of_natCast_le (Nat.le_succ _) hlimit)
      omega

end Numbered

/-! ### Histories -/

/-- What every history that drops no rotated versions keeps. -/
structure Inv (s : KeyHistory) : Prop where
  derived : Derived cipher.toKeyCrypto s.provider
  issued : ∀ c ∈ s.issued, ∃ iv version, version.version = c.version ∧ 1 ≤ c.version ∧
    version.key = s.provider.deriveKey cipher.toKeyCrypto c.tenantId version.version ∧
    c.text = ciphertext cipher.toKeyCrypto version iv c.plaintext
  numbered : ∀ tenantId, Numbered s.provider.activeKeyVersions (s.latest tenantId)
    (s.provider.getVersions cipher.toKeyCrypto tenantId).2

variable {cipher} {s : KeyHistory}

theorem Inv.init (cipher : KeyCipher) (masterKey : Bytes) (activeKeyVersions : JsNumber) :
    Inv cipher (init masterKey activeKeyVersions) where
  derived _ _ hget := nomatch hget
  issued _ hc := absurd hc List.not_mem_nil
  numbered _ := numbered_one _ rfl

theorem Inv.keysKept (hcipher : cipher.Lawful) (h : Inv cipher s) : KeysKept cipher s where
  decrypts c hc hlast := by
    obtain ⟨iv, version, hversion, hpos, hkey, htext⟩ := h.issued c hc
    have hactive := (h.numbered c.tenantId).mem hpos hlast.1 hlast.2
    rw [← hversion] at hactive
    rw [htext, decryptForTenant_ciphertext hcipher h.derived hkey hactive]
  current tenantId version hcurrent := by
    obtain ⟨v, hv, rfl⟩ := Option.map_eq_some_iff.mp hcurrent
    exact ((h.numbered tenantId).getLast hv).ge

/-- Looking at the versions of a tenant. -/
theorem Inv.getVersions (h : Inv cipher s) (tenantId : String) :
    Inv cipher { s with provider := (s.provider.getVersions cipher.toKeyCrypto tenantId).1 } where
  derived := h.derived.getVersions_fst tenantId
  issued c hc := by
    obtain ⟨iv, version, hversion, hpos, hkey, htext⟩ := h.issued c hc
    refine ⟨iv, version, hversion, hpos, ?_, htext⟩
    rw [hkey, deriveKey, deriveKey, masterKey_getVersions]
  numbered other := by
    rw [getVersions_getVersions, activeKeyVersions_getVersions]
    exact h.numbered other

theorem Inv.encrypt (h : Inv cipher s) (tenantId plaintext : String) (iv : Bytes) :
    Inv cipher (step cipher s (.encryptForTenant tenantId plaintext iv)) := by
  simp only [step, encryptForTenant_eq, currentVersion]
  have hlook := h.getVersions tenantId
  cases hlast : (s.provider.getVersions cipher.toKeyCrypto tenantId).2.getLast? with
  | none =>
    simp only [Option.map_none, List.append_nil]
    exact hlook
  | some version =>
    refine ⟨hlook.derived, fun c hc => ?_, hlook.numbered⟩
    rcases List.mem_append.mp hc with hc | hc
    · exact hlook.issued c hc
    · obtain rfl := List.mem_singleton.mp hc
      have hmem := List.mem_of_getLast? hlast
      have hversions := List.mem_map_of_mem hmem (f := TenantKeyVersion.version)
      rw [(h.numbered tenantId).versions_eq, List.mem_range'_1] at hversions
      have hlen := (h.numbered tenantId).length_le
      have hpos : 1 ≤ version.version := by omega
      refine ⟨iv, version, rfl, hpos, ?_, rfl⟩
      rw [h.derived.getVersions tenantId version hmem, deriveKey, deriveKey, masterKey_getVersions]

theorem Inv.rotate (h : Inv cipher s) (tenantId : String) :
    Inv cipher (step cipher s (.rotateKey tenantId)) where
  derived := h.derived.rotateKey tenantId
  issued c hc := by
    obtain ⟨iv, version, hversion, hpos, hkey, htext⟩ := h.issued c hc
    refine ⟨iv, version, hversion, hpos, ?_, htext⟩
    rw [hkey, step, deriveKey, deriveKey, masterKey_rotateKey]
  numbered other := by
    simp only [step, getVersions_rotateKey, activeKeyVersions_rotateKey, Function.update_apply]
    split
    · exact (h.numbered tenantId).rotate rfl
    · exact h.numbered other

/-- Dropping the versions of tenants that were never rotated. -/
theorem Inv.drop (h : Inv cipher s) {provider : TenantKeyProvider}
    (hkey : provider.masterKey = s.provider.masterKey)
    (hlimit : provider.activeKeyVersions = s.provider.activeKeyVersions)
    (hderived : Derived cipher.toKeyCrypto provider)
    (hversions : ∀ tenantId, (provider.getVersions cipher.toKeyCrypto tenantId).2 =
        (s.provider.getVersions cipher.toKeyCrypto tenantId).2 ∨
      s.latest tenantId = 1 ∧ (provider.getVersions cipher.toKeyCrypto tenantId).2 =
        [{ version := 1, key := s.provider.deriveKey cipher.toKeyCrypto tenantId 1 }]) :
    Inv cipher { s with provider := provider } where
  derived := hderived
  issued c hc := by
    obtain ⟨iv, version, hversion, hpos, hderive, htext⟩ := h.issued c hc
    refine ⟨iv, version, hversion, hpos, ?_, htext⟩
    rw [hderive, deriveKey, deriveKey, hkey]
  numbered tenantId := by
    rcases hversions tenantId with hsame | ⟨hone, hfirst⟩
    · simp only [hsame, hlimit]
      exact h.numbered tenantId
    · simp only [hfirst, hone]
      exact numbered_one _ rfl

theorem Inv.step (h : Inv cipher s) {i : KeyInput} (hi : DropsUnrotated s i) :
    Inv cipher (step cipher s i) := by
  cases i with
  | encryptForTenant tenantId plaintext iv => exact h.encrypt tenantId plaintext iv
  | decryptForTenant tenantId ciphertext =>
    rw [KeyHistory.step]
    rcases decryptForTenant_fst cipher tenantId ciphertext s.provider with heq | heq
    · rw [heq]
      exact h
    · rw [heq]
      exact h.getVersions tenantId
  | rotateKey tenantId => exact h.rotate tenantId
  | clearCache =>
    exact h.drop rfl rfl Derived.clearCache fun t => .inr ⟨hi t, getVersions_clearCache t⟩
  | restart =>
    exact h.drop rfl rfl Derived.clearCache fun t => .inr ⟨hi t, getVersions_clearCache t⟩
  | clearTenantCache tenantId =>
    refine h.drop rfl rfl (h.derived.clearTenantCache tenantId) fun t => ?_
    rw [getVersions_clearTenantCache]
    split
    · next heq =>
      subst heq
      exact .inr ⟨hi, rfl⟩
    · exact .inl rfl

/-- A tenant whose versions are dropped encrypts with the first version again. -/
theorem dropsUnrotated_of_keysKept (h : ∀ tenantId, 1 ≤ s.latest tenantId) {i : KeyInput}
    (hkept : KeysKept cipher (KeyHistory.step cipher s i)) : DropsUnrotated s i := by
  cases i with
  | clearCache =>
    intro tenantId
    have hcurrent := hkept.current tenantId 1 (by
      rw [currentVersion, KeyHistory.step, getVersions_clearCache]
      rfl)
    exact Nat.le_antisymm hcurrent (h tenantId)
  | restart =>
    intro tenantId
    have hcurrent := hkept.current tenantId 1 rfl
    exact Nat.le_antisymm hcurrent (h tenantId)
  | clearTenantCache tenantId =>
    have hcurrent := hkept.current tenantId 1 (by
      rw [currentVersion, KeyHistory.step, getVersions_clearTenantCache, if_pos rfl]
      rfl)
    exact Nat.le_antisymm hcurrent (h tenantId)
  | _ => trivial

theorem one_le_latest (h : ∀ tenantId, 1 ≤ s.latest tenantId) (i : KeyInput) (tenantId : String) :
    1 ≤ (KeyHistory.step cipher s i).latest tenantId := by
  cases i with
  | rotateKey rotated =>
    simp only [KeyHistory.step, Function.update_apply]
    split
    · unfold nextVersion
      split
      · exact Nat.le_add_left ..
      · exact Nat.le_refl 1
    · exact h tenantId
  | _ => exact h tenantId

/-- Throughout a history the last versions of every tenant decrypt and no encryption falls behind
the latest rotation, if and only if the cache never drops the versions of a rotated tenant. -/
theorem keysKept_iff (hcipher : cipher.Lawful) (masterKey : Bytes) (activeKeyVersions : JsNumber)
    (is : List KeyInput) :
    Run.AllStates (KeyHistory.step cipher) (KeysKept cipher) (init masterKey activeKeyVersions) is ↔
      Run.AllSteps (KeyHistory.step cipher) DropsUnrotated (init masterKey activeKeyVersions) is := by
  have hstart := Inv.init cipher masterKey activeKeyVersions
  have hone (tenantId : String) : 1 ≤ (init masterKey activeKeyVersions).latest tenantId :=
    Nat.le_refl 1
  constructor
  · intro h
    exact Run.allSteps_of_allStates (fun s i hs _ => one_le_latest hs i)
      (fun s i hs => dropsUnrotated_of_keysKept hs) hone h
  · intro h
    refine (Run.allStates_of_invariant (fun s i hs hi => hs.step hi) hstart h).mono ?_
    exact fun s hs => hs.keysKept hcipher

theorem keysKept_rotated : Run.AllStates (KeyHistory.step openCipher) (KeysKept openCipher)
    (init (List.replicate 32 0) 2)
    [.encryptForTenant "a" "x" [], .rotateKey "a", .clearTenantCache "b"] :=
  (keysKept_iff lawful_openCipher (List.replicate 32 0) 2 _).mpr
    ⟨trivial, trivial, rfl, trivial⟩

/-- After a rotation and a cleared cache the first version encrypts again. -/
theorem keysKept_not_cleared : ¬Run.AllStates (KeyHistory.step openCipher) (KeysKept openCipher)
    (init (List.replicate 32 0) 2) [.rotateKey "a", .encryptForTenant "a" "x" [], .clearCache] := by
  intro h
  have hcurrent := h.2.2.2.current "a" 1 rfl
  exact absurd hcurrent (by decide)

end KeyHistory

end KirkForge
