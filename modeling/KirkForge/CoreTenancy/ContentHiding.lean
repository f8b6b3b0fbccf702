import KirkForge.CoreTenancy.TenantEncryption

/-!
# What the inner adapters learn

Two runs whose calls differ in nothing but descriptions and properties. The inner adapters learn of
these what `encryptForTenant` makes of them, except that the description of a run is handed on as it
is.
-/

namespace KirkForge

/-- The call without the description and the properties. -/
def AdapterCall.withoutContent : AdapterCall → AdapterCall
  | write obj => write { obj with description := "", properties := .nil }
  | writeRun run => writeRun { run with description := "" }
  | writeEmission emission => writeEmission emission
  | writeRunAndEmissions run emissions =>
    writeRunAndEmissions { run with description := "" } emissions

/-- The received call without what is encrypted in it: nothing but the description and the
properties of an object ever is. -/
def AdapterCall.withoutCiphertexts : AdapterCall → AdapterCall
  | write obj => write { obj with description := "", properties := .nil }
  | c => c

/-- The input without the content of its call and the random bytes. -/
def TenantInput.frame : TenantInput → TenantInput
  | call tenantId c _ _ => call tenantId c.withoutContent [] []
  | i => i

/-- The call with another description if it hands on a run. -/
def AdapterCall.reworded : AdapterCall → AdapterCall
  | writeRun run => writeRun { run with description := run.description ++ "!" }
  | writeRunAndEmissions run emissions =>
    writeRunAndEmissions { run with description := run.description ++ "!" } emissions
  | c => c

namespace TenantLog

open TenantEncryptionAdapter

variable {env : TenantEnv}

/-- The inner adapters have received the same but for ciphertexts, and the same altogether if the
encryption has given the same. -/
structure Hidden (s s' : TenantLog) : Prop where
  frame : s.received.map (fun r => (r.1, r.2.withoutCiphertexts)) =
    s'.received.map fun r => (r.1, r.2.withoutCiphertexts)
  through : s.outputs = s'.outputs → s.received = s'.received

/-- The call hands a run to an inner adapter that takes it. -/
def HandsOnRun (inner : String → OptionalMethods) : TenantInput → Prop
  | .call tenantId (.writeRun _) _ _ => (inner tenantId).writeRun = true
  | .call tenantId (.writeRunAndEmissions _ _) _ _ => (inner tenantId).writeRunAndEmissions = true
  | _ => False

/-! ### Encryption -/

theorem getVersions_getVersions (crypto : KeyCrypto) (tenantId : String)
    (provider : TenantKeyProvider) :
    (provider.getVersions crypto tenantId).1.getVersions crypto tenantId =
      provider.getVersions crypto tenantId := by
  cases h : provider.keyCache.get? tenantId with
  | some versions => simp [TenantKeyProvider.getVersions, h]
  | none => simp [TenantKeyProvider.getVersions, h]

/-- Whether an object is encrypted does not depend on it, and nothing of it goes on but through the
two outputs. -/
theorem write_cases (crypto : KeyCrypto) (tenantId : String) (provider : TenantKeyProvider) :
    (∀ obj iv iv', write crypto tenantId obj iv iv' provider =
      ((provider.getVersions crypto tenantId).1, [.error TenantKeyProvider.missingKey],
        .error (failure tenantId TenantKeyProvider.missingKey))) ∨
    ∀ obj iv iv', ∃ description properties, write crypto tenantId obj iv iv' provider =
      ((provider.getVersions crypto tenantId).1, [.ok description, .ok properties],
        .ok { obj with description, properties := .cons "_enc" (.string properties) .nil }) := by
  cases h : (provider.getVersions crypto tenantId).2.getLast? with
  | none =>
    refine .inl fun obj iv iv' => ?_
    simp only [write, TenantKeyProvider.encryptForTenant, h]
  | some version =>
    refine .inr fun obj iv iv' => ?_
    simp only [write, TenantKeyProvider.encryptForTenant, h, getVersions_getVersions]
    exact ⟨_, _, rfl⟩

/-! ### Two runs -/

/-- Two runs go along with each other. -/
structure Coupled (s s' : TenantLog) : Prop where
  provider : s.provider = s'.provider
  outputs : s.outputs.length = s'.outputs.length
  hidden : Hidden s s'

theorem Coupled.receive {s s' : TenantLog} (h : Coupled s s') (tenantId : String)
    (calls : List AdapterCall) : Coupled (s.receive tenantId calls) (s'.receive tenantId calls) where
  provider := h.provider
  outputs := h.outputs
  hidden :=
    { frame := by simp only [TenantLog.receive, List.map_append, h.hidden.frame]
      through := fun houtputs => by simp only [TenantLog.receive, h.hidden.through houtputs] }

theorem Coupled.provide {s s' : TenantLog} (h : Coupled s s')
    (f : TenantKeyProvider → TenantKeyProvider) :
    Coupled { s with provider := f s.provider } { s' with provider := f s'.provider } :=
  ⟨congrArg f h.provider, h.outputs, h.hidden.frame, h.hidden.through⟩

theorem write_coupled {s s' : TenantLog} (h : Coupled s s') (tenantId : String)
    {obj obj' : MemoryObject}
    (hobj : (AdapterCall.write obj).withoutContent = (AdapterCall.write obj').withoutContent)
    (iv₁ iv₂ iv₁' iv₂' : Bytes) :
    Coupled (step env s (.call tenantId (.write obj) iv₁ iv₂))
      (step env s' (.call tenantId (.write obj') iv₁' iv₂')) := by
  simp only [step, ← h.provider]
  rcases write_cases env.crypto tenantId s.provider with hfails | hencrypts
  · simp only [hfails]
    refine ⟨rfl, by simp [TenantLog.receive, h.outputs], ?_, fun houtputs => ?_⟩
    · simpa [TenantLog.receive] using h.hidden.frame
    · have hbefore := List.append_cancel_right houtputs
      simpa [TenantLog.receive] using h.hidden.through hbefore
  · obtain ⟨d, q, hwrite⟩ := hencrypts obj iv₁ iv₂
    obtain ⟨d', q', hwrite'⟩ := hencrypts obj' iv₁' iv₂'
    simp only [hwrite, hwrite']
    simp only [AdapterCall.withoutContent, AdapterCall.write.injEq, MemoryObject.mk.injEq,
      true_and] at hobj
    obtain ⟨hid, hkind, htask, hrun, htime, htags⟩ := hobj
    refine ⟨rfl, by simp [TenantLog.receive, h.outputs], ?_, fun houtputs => ?_⟩
    · simp only [TenantLog.receive, List.map_append, h.hidden.frame]
      simp [Except.toOption, AdapterCall.withoutCiphertexts, hid, hkind, htask, hrun, htime, htags]
    · obtain ⟨hbefore, hlast⟩ := List.append_inj houtputs h.outputs
      simp only [List.cons.injEq, Except.ok.injEq, and_true] at hlast
      simp [TenantLog.receive, Except.toOption, h.hidden.through hbefore, hlast.1, hlast.2, hid,
        hkind, htask, hrun, htime, htags]

/-- One call in each of two runs, which differ in nothing but content. -/
theorem step_coupled {s s' : TenantLog} (h : Coupled s s') {i i' : TenantInput}
    (hframe : i.frame = i'.frame) (hi : ¬HandsOnRun env.inner i) :
    Coupled (step env s i) (step env s' i') := by
  cases i with
  | call tenantId c iv₁ iv₂ =>
    cases i' with
    | call tenantId' c' iv₁' iv₂' =>
      simp only [TenantInput.frame, TenantInput.call.injEq, and_true] at hframe
      obtain ⟨rfl, hc⟩ := hframe
      cases c with
      | write obj =>
        cases c' with
        | write obj' => exact write_coupled h tenantId hc iv₁ iv₂ iv₁' iv₂'
        | _ => exact nomatch hc
      | writeRun run =>
        cases c' with
        | writeRun run' =>
          have hnone : (env.inner tenantId).writeRun ≠ true := hi
          simp only [step, TenantEncryptionAdapter.writeRun, if_neg hnone]
          exact h.receive tenantId []
        | _ => exact nomatch hc
      | writeEmission emission =>
        cases c' with
        | writeEmission emission' =>
          cases hc
          exact h.receive tenantId _
        | _ => exact nomatch hc
      | writeRunAndEmissions run emissions =>
        cases c' with
        | writeRunAndEmissions run' emissions' =>
          have hnone : (env.inner tenantId).writeRunAndEmissions ≠ true := hi
          simp only [step, TenantEncryptionAdapter.writeRunAndEmissions, if_neg hnone]
          exact h.receive tenantId []
        | _ => exact nomatch hc
    | _ => exact nomatch hframe
  | rotateKey tenantId =>
    cases i' with
    | rotateKey =>
      cases hframe
      exact h.provide (TenantKeyProvider.rotateKey env.crypto tenantId)
    | _ => exact nomatch hframe
  | clearCache =>
    cases i' with
    | clearCache =>
      cases hframe
      exact h.provide TenantKeyProvider.clearCache
    | _ => exact nomatch hframe
  | clearTenantCache tenantId =>
    cases i' with
    | clearTenantCache =>
      cases hframe
      exact h.provide (TenantKeyProvider.clearTenantCache tenantId)
    | _ => exact nomatch hframe

/-- Two runs that hand on no run stay together. -/
theorem run_coupled {s s' : TenantLog} (h : Coupled s s') {inputs inputs' : List TenantInput}
    (hframe : inputs.map TenantInput.frame = inputs'.map TenantInput.frame)
    (hi : ∀ i ∈ inputs, ¬HandsOnRun env.inner i) :
    Coupled (Run.run (step env) s inputs) (Run.run (step env) s' inputs') := by
  induction inputs generalizing s s' inputs' with
  | nil =>
    rw [List.map_eq_nil_iff.mp hframe.symm]
    exact h
  | cons i inputs ih =>
    cases inputs' with
    | nil => exact nomatch hframe
    | cons i' inputs' =>
      obtain ⟨hhead, htail⟩ := List.cons.inj hframe
      obtain ⟨hfirst, hrest⟩ := List.forall_mem_cons.mp hi
      exact ih (step_coupled h hhead hfirst) htail hrest

/-! ### Runs in the clear -/

/-- The input with another description for every run. -/
def reworded : TenantInput → TenantInput
  | .call tenantId c iv iv' => .call tenantId c.reworded iv iv'
  | i => i

theorem frame_reworded (i : TenantInput) : (reworded i).frame = i.frame := by
  cases i with
  | call tenantId c => cases c <;> rfl
  | _ => rfl

/-- The inner adapters have received the calls of another log with other descriptions of the
runs. -/
structure Rewords (s s' : TenantLog) : Prop where
  provider : s'.provider = s.provider
  received : s'.received = s.received.map fun r => (r.1, r.2.reworded)

theorem Rewords.receive {s s' : TenantLog} (h : Rewords s s') (tenantId : String)
    (calls : List AdapterCall) :
    Rewords (s.receive tenantId calls) (s'.receive tenantId (calls.map AdapterCall.reworded)) where
  provider := h.provider
  received := by simp [TenantLog.receive, h.received]

theorem map_reworded_writeRun (inner : OptionalMethods) (run : RunRow) :
    (TenantEncryptionAdapter.writeRun inner run).map AdapterCall.reworded =
      TenantEncryptionAdapter.writeRun inner { run with description := run.description ++ "!" } := by
  simp only [TenantEncryptionAdapter.writeRun]
  split <;> rfl

theorem map_reworded_writeEmission (inner : OptionalMethods) (emission : EmissionRow) :
    (TenantEncryptionAdapter.writeEmission inner emission).map AdapterCall.reworded =
      TenantEncryptionAdapter.writeEmission inner emission := by
  simp only [TenantEncryptionAdapter.writeEmission]
  split <;> rfl

theorem map_reworded_writeRunAndEmissions (inner : OptionalMethods) (run : RunRow)
    (emissions : List EmissionRow) :
    (TenantEncryptionAdapter.writeRunAndEmissions inner run emissions).map AdapterCall.reworded =
      TenantEncryptionAdapter.writeRunAndEmissions inner
        { run with description := run.description ++ "!" } emissions := by
  simp only [TenantEncryptionAdapter.writeRunAndEmissions]
  split <;> rfl

theorem step_rewords {s s' : TenantLog} (h : Rewords s s') (i : TenantInput) :
    Rewords (step env s i) (step env s' (reworded i)) := by
  cases i with
  | call tenantId c iv iv' =>
    cases c with
    | write obj =>
      simp only [step, reworded, AdapterCall.reworded, h.provider]
      set r := TenantEncryptionAdapter.write env.crypto tenantId obj iv iv' s.provider
      have hcalls : (r.2.2.toOption.map AdapterCall.write).toList.map AdapterCall.reworded =
          (r.2.2.toOption.map AdapterCall.write).toList := by
        cases r.2.2 <;> rfl
      have hr : Rewords { s with provider := r.1, outputs := s.outputs ++ r.2.1 }
          { s' with provider := r.1, outputs := s'.outputs ++ r.2.1 } := ⟨rfl, h.received⟩
      have hreceive := hr.receive tenantId (r.2.2.toOption.map AdapterCall.write).toList
      rwa [hcalls] at hreceive
    | writeRun run =>
      have hreceive := h.receive tenantId (TenantEncryptionAdapter.writeRun (env.inner tenantId) run)
      rwa [map_reworded_writeRun] at hreceive
    | writeEmission emission =>
      have hreceive := h.receive tenantId
        (TenantEncryptionAdapter.writeEmission (env.inner tenantId) emission)
      rwa [map_reworded_writeEmission] at hreceive
    | writeRunAndEmissions run emissions =>
      have hreceive := h.receive tenantId
        (TenantEncryptionAdapter.writeRunAndEmissions (env.inner tenantId) run emissions)
      rwa [map_reworded_writeRunAndEmissions] at hreceive
  | rotateKey tenantId =>
    exact ⟨congrArg (TenantKeyProvider.rotateKey env.crypto tenantId) h.provider, h.received⟩
  | clearCache => exact ⟨congrArg TenantKeyProvider.clearCache h.provider, h.received⟩
  | clearTenantCache tenantId =>
    exact ⟨congrArg (TenantKeyProvider.clearTenantCache tenantId) h.provider, h.received⟩

theorem run_rewords (env : TenantEnv) {s s' : TenantLog} (h : Rewords s s')
    (inputs : List TenantInput) :
    Rewords (Run.run (step env) s inputs) (Run.run (step env) s' (inputs.map reworded)) := by
  induction inputs generalizing s s' with
  | nil => exact h
  | cons i inputs ih => exact ih (step_rewords h i)

theorem mem_received_step {s : TenantLog} {r : String × AdapterCall} (h : r ∈ s.received)
    (i : TenantInput) : r ∈ (step env s i).received := by
  cases i with
  | call tenantId c => cases c <;> exact List.mem_append_left _ h
  | _ => exact h

theorem description_ne (description : String) : description ++ "!" ≠ description := fun h => by
  have hlength := congrArg String.length h
  simp [String.length_append] at hlength

theorem exists_received_step (s : TenantLog) {i : TenantInput} (h : HandsOnRun env.inner i) :
    ∃ r ∈ (step env s i).received,
      r.2.reworded.withoutCiphertexts ≠ r.2.withoutCiphertexts := by
  cases i with
  | call tenantId c =>
    cases c with
    | writeRun run =>
      have hinner : (env.inner tenantId).writeRun = true := h
      refine ⟨(tenantId, .writeRun run), ?_, fun hsame => ?_⟩
      · simp [step, receive, TenantEncryptionAdapter.writeRun, hinner]
      · exact description_ne _
          (congrArg (fun run : RunRow => run.description) (AdapterCall.writeRun.inj hsame))
    | writeRunAndEmissions run emissions =>
      have hinner : (env.inner tenantId).writeRunAndEmissions = true := h
      refine ⟨(tenantId, .writeRunAndEmissions run emissions), ?_, fun hsame => ?_⟩
      · simp [step, receive, TenantEncryptionAdapter.writeRunAndEmissions, hinner]
      · exact description_ne _
          (congrArg (fun run : RunRow => run.description)
            (AdapterCall.writeRunAndEmissions.inj hsame).1)
    | _ => exact h.elim
  | _ => exact h.elim

/-- A run that is handed on stays with the inner adapter. -/
theorem exists_received (env : TenantEnv) (s : TenantLog) {i : TenantInput}
    {inputs : List TenantInput} (h : HandsOnRun env.inner i) (hi : i ∈ inputs) :
    ∃ r ∈ (Run.run (step env) s inputs).received,
      r.2.reworded.withoutCiphertexts ≠ r.2.withoutCiphertexts := by
  induction inputs generalizing s with
  | nil => exact absurd hi List.not_mem_nil
  | cons j inputs ih =>
    rcases List.mem_cons.mp hi with rfl | hi
    · obtain ⟨r, hr, hne⟩ := exists_received_step s h
      exact ⟨r, Run.run_invariant (I := fun s : TenantLog => r ∈ s.received)
        (fun _ j hs => mem_received_step hs j) inputs hr, hne⟩
    · exact ih _ hi

/-- What is handed on tells nothing of the contents but through the ciphertexts exactly if no run is
handed on. -/
theorem tenant_hides_content_iff (inner : String → OptionalMethods) (provider : TenantKeyProvider)
    (inputs : List TenantInput) :
    (∀ (crypto : KeyCrypto) (inputs' : List TenantInput),
        inputs.map TenantInput.frame = inputs'.map TenantInput.frame →
        Hidden (Run.run (step ⟨crypto, inner⟩) { provider } inputs)
          (Run.run (step ⟨crypto, inner⟩) { provider } inputs')) ↔
      ∀ i ∈ inputs, ¬HandsOnRun inner i := by
  constructor
  · intro h i hi hruns
    let crypto : KeyCrypto :=
      { hmacSha256 := fun _ _ => [], encrypt := fun _ _ _ => ([], []), base64 := fun _ => "" }
    have hframe : inputs.map TenantInput.frame = (inputs.map reworded).map TenantInput.frame := by
      simp [frame_reworded]
    have hhidden := (h crypto (inputs.map reworded) hframe).frame
    have hrewords := run_rewords ⟨crypto, inner⟩ (s := { provider }) ⟨rfl, rfl⟩ inputs
    rw [hrewords.received, List.map_map] at hhidden
    obtain ⟨r, hr, hne⟩ := exists_received ⟨crypto, inner⟩ { provider } hruns hi
    exact hne (Prod.mk.inj (List.map_inj_left.mp hhidden r hr)).2.symm
  · intro h crypto inputs' hframe
    exact (run_coupled ⟨rfl, rfl, rfl, fun _ => rfl⟩ hframe h).hidden

/-- The description of a run reaches the inner adapter as it is. -/
theorem run_description_in_clear :
    ¬∀ (env : TenantEnv) (provider : TenantKeyProvider) (inputs inputs' : List TenantInput),
      inputs.map TenantInput.frame = inputs'.map TenantInput.frame →
        Hidden (Run.run (step env) { provider } inputs)
          (Run.run (step env) { provider } inputs') := by
  intro h
  let env : TenantEnv :=
    { crypto :=
        { hmacSha256 := fun _ _ => [], encrypt := fun _ _ _ => ([], []), base64 := fun _ => "" }
      inner := fun _ => ⟨true, true, true⟩ }
  let run (description : String) : RunRow :=
    { runId := "r1", taskId := "t1", description, language := "ts", mode := "pattern", model := "m",
      providerKey := "k", providerType := "p", outcome := "pass", outcomeClass := "pass",
      routingLesson := "reward", finalVerdict := "pass", sourceOfTruth := "verifier",
      finalAction := "accept", tokens := 0, durationMs := 0, turns := 1, validatorDurationMs := 0,
      filesEmitted := 0, totalBytesEmitted := 0, emissionIds := [],
      timestamp := "2024-01-01T00:00:00.000Z" }
  have hhidden := h env { masterKey := List.replicate 32 0 }
    [.call "acme" (.writeRun (run "plan a")) [] []]
    [.call "acme" (.writeRun (run "plan b")) [] []] rfl
  have hreceived := hhidden.through rfl
  have hdescription := congrArg (fun run : RunRow => run.description)
    (AdapterCall.writeRun.inj (Prod.mk.inj (List.cons.inj hreceived).1).2)
  exact absurd hdescription (by decide)

end TenantLog

end KirkForge
