import KirkForge.CoreTenancy.TenantIsolation
import KirkForge.Theory.Encoding
import KirkForge.Theory.JsonPretty

/-!
# The index on the disk

`_loadIndex` and `_saveIndex` of `TenantRegistry` (`core-tenancy/src/index.ts`) on the bytes of
`index.json`. A save may fail, or leave the file cut off after any number of bytes. The registries
do what those do for which the index is given by its entries: a text that is cut off is never read
as an index, so a registry that is made has the tenants of the one that was saved last, or none
(`index_survives`).
-/

namespace KirkForge

open KirkForge.Encoding

namespace TenantHandle

def toJson (t : TenantHandle) : Json := .obj [("tenantId", .str t.tenantId), ("label", .str t.label),
  ("workspacePath", .str t.workspacePath), ("storageDir", .str t.storageDir),
  ("createdAt", .str t.createdAt)]

/-- An entry of the index, if its members are texts. -/
def ofJson (entry : Json) : Option TenantHandle := do
  let tenantId ← (← entry.get? "tenantId").str?
  let label ← (← entry.get? "label").str?
  let workspacePath ← (← entry.get? "workspacePath").str?
  let storageDir ← (← entry.get? "storageDir").str?
  let createdAt ← (← entry.get? "createdAt").str?
  return { tenantId, label, workspacePath, storageDir, createdAt }

end TenantHandle

namespace TenantRegistry

/-- The index as `_saveIndex` writes it. -/
def indexBytes (tenants : TenantRegistry) : List Nat :=
  encodeUtf8 (String.ofList
    (Json.pretty 0 (.arr (tenants.entries.map fun e => e.2.toJson))))

/-- What `_loadIndex` finds. No registry saves another JSON value than an array of handles. -/
def readIndex : Option (List Nat) → Option IndexFile
  | none => some .missing
  | some bytes =>
    match Json.parse (decodeUtf8 bytes) with
    | none => some .corrupt
    | some (.arr data) => (data.mapM TenantHandle.ofJson).map .entries
    | some _ => none

end TenantRegistry

/-! ### Registries on a disk -/

/-- What becomes of `writeFileSync`. A failure goes unnoticed. -/
inductive IndexWrite
  | written
  | failed
  /-- Only the first bytes are there. -/
  | torn (bytes : Nat)

/-- The file `index.json`, and the registries that were made. -/
structure TenancyDisk where
  file : Option (List Nat) := none
  registries : List TenantRegistry := []
  /-- The registry that was saved last, if all of it was. -/
  saved : TenantRegistry := ∅

inductive DiskInput
  | create
  | register (registry : Nat) (workspacePath now : String) (write : IndexWrite)
  | evictFromIndex (registry : Nat) (tenantId : String) (write : IndexWrite)

namespace TenancyDisk

open TenantRegistry

def save (s : TenancyDisk) (tenants : TenantRegistry) : IndexWrite → TenancyDisk
  | .written => { s with file := some tenants.indexBytes, saved := tenants }
  | .failed => s
  | .torn bytes => { s with
      file := some (tenants.indexBytes.take bytes)
      saved := if bytes < tenants.indexBytes.length then ∅ else tenants }

def change (s : TenancyDisk) (registry : Nat) (tenants : TenantRegistry) (saves : Bool)
    (write : IndexWrite) : TenancyDisk :=
  let s := { s with registries := s.registries.set registry tenants }
  if saves then s.save tenants write else s

def step (env : RegistryEnv) (s : TenancyDisk) : DiskInput → TenancyDisk
  | .create =>
    match readIndex s.file with
    -- no registry saves such a file
    | none => s
    | some file => { s with registries := s.registries ++ [loadIndex file] }
  | .register registry workspacePath now write =>
    match s.registries[registry]? with
    | none => s
    | some tenants =>
      let r := tenants.register env workspacePath now
      s.change registry r.2.1 r.2.2 write
  | .evictFromIndex registry tenantId write =>
    match s.registries[registry]? with
    | none => s
    | some tenants =>
      let r := tenants.evictFromIndex tenantId
      s.change registry r.1 r.2 write

/-- The file as it is read, and the same registries. -/
structure Shows (s : TenancyDisk) (a : TenancyState) : Prop where
  file : readIndex s.file = some a.file
  registries : a.registries = s.registries
  saved : loadIndex a.file = s.saved

end TenancyDisk

/-- A save that is cut off may have reached the end. -/
inductive IndexWrite.Ends : IndexWrite → SaveOutcome → Prop
  | written : Ends .written .written
  | failed : Ends .failed .failed
  | cut (bytes : Nat) : Ends (.torn bytes) .torn
  | reached (bytes : Nat) : Ends (.torn bytes) .written

/-- The same call of a registry. -/
inductive DiskInput.Does : DiskInput → TenancyInput → Prop
  | create : Does .create .create
  | register (registry : Nat) (workspacePath now : String) {write : IndexWrite} {save : SaveOutcome}
      (h : write.Ends save) :
      Does (.register registry workspacePath now write) (.register registry workspacePath now save)
  | evictFromIndex (registry : Nat) (tenantId : String) {write : IndexWrite} {save : SaveOutcome}
      (h : write.Ends save) :
      Does (.evictFromIndex registry tenantId write) (.evictFromIndex registry tenantId save)

theorem IndexWrite.exists_ends (write : IndexWrite) : ∃ save, write.Ends save := by
  cases write with
  | written => exact ⟨.written, .written⟩
  | failed => exact ⟨.failed, .failed⟩
  | torn bytes => exact ⟨.torn, .cut bytes⟩

/-! ### One index -/

theorem TenantHandle.ofJson_toJson (t : TenantHandle) : ofJson t.toJson = some t := rfl

theorem TenantHandle.wellFormed_toJson (t : TenantHandle) : t.toJson.WellFormed := by
  refine ⟨?_, trivial, trivial, trivial, trivial, trivial, trivial⟩
  show ["tenantId", "label", "workspacePath", "storageDir", "createdAt"].Nodup
  decide

namespace TenantRegistry

variable {env : RegistryEnv} {tenants : TenantRegistry}

theorem wellFormed_handles (list : List TenantHandle) :
    (Json.arr (list.map TenantHandle.toJson)).WellFormed := by
  show Json.ItemsWellFormed _
  induction list with
  | nil => trivial
  | cons t list ih => exact ⟨t.wellFormed_toJson, ih⟩

theorem mapM_ofJson (list : List TenantHandle) :
    (list.map TenantHandle.toJson).mapM TenantHandle.ofJson = some list := by
  induction list with
  | nil => rfl
  | cons t list ih =>
    rw [List.map_cons, List.mapM_cons, TenantHandle.ofJson_toJson, ih]
    rfl

theorem indexBytes_eq (tenants : TenantRegistry) : tenants.indexBytes = encodeUtf8 (String.ofList
    (Json.pretty 0 (.arr ((tenants.entries.map Prod.snd).map TenantHandle.toJson)))) := by
  rw [indexBytes, List.map_map]
  rfl

/-- The index is read as it was saved. -/
theorem readIndex_indexBytes (tenants : TenantRegistry) :
    readIndex (some tenants.indexBytes) = some tenants.index := by
  have hparse := Json.parse_pretty (wellFormed_handles (tenants.entries.map Prod.snd))
  rw [readIndex, indexBytes_eq, decodeUtf8_encodeUtf8, hparse]
  dsimp only
  rw [mapM_ofJson]
  rfl

/-- An index that is cut off is no index. -/
theorem readIndex_take {bytes : Nat} (h : bytes < tenants.indexBytes.length) :
    readIndex (some (tenants.indexBytes.take bytes)) = some .corrupt := by
  rw [indexBytes_eq] at h ⊢
  obtain ⟨front, back, k, htext, hback, hdecode⟩ := decodeUtf8_cut h
  rw [String.toList_ofList] at htext
  have hparse := Json.parse_cut_off (wellFormed_handles (tenants.entries.map Prod.snd)) trivial
    htext hback k
  rw [readIndex, hdecode, hparse]

/-- Loading gives the registry whose index it was, in the same order. -/
theorem loadIndex_index (h : TenancyState.Proper env tenants) :
    loadIndex tenants.index = tenants := by
  have hkeys : (tenants.entries.map Prod.snd).map (fun entry => (entry.tenantId, entry)) =
      tenants.entries := by
    rw [List.map_map]
    refine (List.map_congr_left fun e he => ?_).trans (List.map_id _)
    have hid := (h e.1 e.2 (OrderedMap.mem_entries_iff.mp he)).1
    exact Prod.ext hid rfl
  have hentries : (loadIndex tenants.index).entries = tenants.entries := by
    have hfold := OrderedMap.entries_foldl_set (m := ∅) (l := tenants.entries) tenants.nodup
    rw [← hkeys, List.foldl_map, hkeys] at hfold
    exact hfold
  cases hload : loadIndex tenants.index
  rw [hload] at hentries
  cases tenants
  cases hentries
  rfl

end TenantRegistry

/-! ### Runs -/

namespace TenancyDisk

open TenantRegistry

variable {env : RegistryEnv} {s : TenancyDisk} {a : TenancyState}

theorem Shows.change (h : Shows s a) {tenants : TenantRegistry}
    (hproper : TenancyState.Proper env tenants) (registry : Nat) (saves : Bool)
    (write : IndexWrite) : ∃ outcome, write.Ends outcome ∧
      Shows (s.change registry tenants saves write) (a.change registry tenants saves outcome) := by
  have hregistries : a.registries.set registry tenants = s.registries.set registry tenants := by
    rw [h.registries]
  have hwhole : loadIndex tenants.index = tenants := loadIndex_index hproper
  cases saves with
  | false =>
    obtain ⟨outcome, hends⟩ := write.exists_ends
    refine ⟨outcome, hends, ?_⟩
    cases outcome <;> exact ⟨h.file, hregistries, h.saved⟩
  | true =>
    cases write with
    | written => exact ⟨.written, .written, readIndex_indexBytes tenants, hregistries, hwhole⟩
    | failed => exact ⟨.failed, .failed, h.file, hregistries, h.saved⟩
    | torn bytes =>
      by_cases hlength : bytes < tenants.indexBytes.length
      · exact ⟨.torn, .cut bytes, readIndex_take hlength, hregistries, (if_pos hlength).symm⟩
      · have hall := List.take_of_length_le (Nat.not_lt.mp hlength)
        refine ⟨.written, .reached bytes, ?_, hregistries, hwhole.trans (if_neg hlength).symm⟩
        show readIndex (some (tenants.indexBytes.take bytes)) = some tenants.index
        rw [hall, readIndex_indexBytes]

theorem Shows.step (h : Shows s a) (ha : TenancyState.Inv env a) (i : DiskInput) :
    ∃ j, DiskInput.Does i j ∧ Shows (step env s i) (TenancyState.step env a j) := by
  cases i with
  | create =>
    refine ⟨.create, .create, ?_⟩
    simp only [TenancyDisk.step, h.file]
    exact ⟨h.file, by rw [TenancyState.step, h.registries], h.saved⟩
  | register registry workspacePath now write =>
    cases hget : s.registries[registry]? with
    | none =>
      obtain ⟨outcome, hends⟩ := write.exists_ends
      refine ⟨.register registry workspacePath now outcome, .register _ _ _ hends, ?_⟩
      simp only [TenancyDisk.step, TenancyState.step, h.registries, hget]
      exact h
    | some tenants =>
      have hproper := ha.registries tenants (by rw [h.registries]; exact List.mem_of_getElem? hget)
      obtain ⟨outcome, hends, hshows⟩ := h.change (hproper.register workspacePath now) registry
        (tenants.register env workspacePath now).2.2 write
      refine ⟨.register registry workspacePath now outcome, .register _ _ _ hends, ?_⟩
      simp only [TenancyDisk.step, TenancyState.step, h.registries, hget]
      exact hshows
  | evictFromIndex registry tenantId write =>
    cases hget : s.registries[registry]? with
    | none =>
      obtain ⟨outcome, hends⟩ := write.exists_ends
      refine ⟨.evictFromIndex registry tenantId outcome, .evictFromIndex _ _ hends, ?_⟩
      simp only [TenancyDisk.step, TenancyState.step, h.registries, hget]
      exact h
    | some tenants =>
      have hproper := ha.registries tenants (by rw [h.registries]; exact List.mem_of_getElem? hget)
      obtain ⟨outcome, hends, hshows⟩ := h.change (hproper.evict tenantId) registry
        (tenants.evictFromIndex tenantId).2 write
      refine ⟨.evictFromIndex registry tenantId outcome, .evictFromIndex _ _ hends, ?_⟩
      simp only [TenancyDisk.step, TenancyState.step, h.registries, hget]
      exact hshows

theorem shows_init : Shows {} {} := ⟨rfl, rfl, rfl⟩

/-- On the bytes of the file the registries do what they do on its entries, whichever saves fail or
are cut off, at whatever byte. A registry that is made has the tenants of the one that was saved
last, in the same order, or none if that save was cut off. -/
theorem index_survives (env : RegistryEnv) (is : List DiskInput) :
    ∃ js, List.Forall₂ DiskInput.Does is js ∧
      Shows (Run.run (step env) {} is) (Run.run (TenancyState.step env) {} js) := by
  have hrun {s : TenancyDisk} {a : TenancyState} (h : Shows s a) (ha : TenancyState.Inv env a) :
      ∃ js, List.Forall₂ DiskInput.Does is js ∧
        Shows (Run.run (step env) s is) (Run.run (TenancyState.step env) a js) := by
    induction is generalizing s a with
    | nil => exact ⟨[], .nil, h⟩
    | cons i is ih =>
      obtain ⟨j, hdoes, hstep⟩ := h.step ha i
      obtain ⟨js, hjs, hshows⟩ := ih hstep (ha.step j)
      exact ⟨j :: js, .cons hdoes hjs, hshows⟩
  exact hrun shows_init ⟨trivial, fun _ h => absurd h List.not_mem_nil⟩

/-! ### Where tenants come from -/

/-- Every tenant of a registry has a property. -/
def Holds (P : TenantHandle → Prop) (tenants : TenantRegistry) : Prop :=
  ∀ t handle, tenants.get? t = some handle → P handle

theorem Holds.register {P : TenantHandle → Prop} {tenants : TenantRegistry} (h : Holds P tenants)
    (workspacePath now : String)
    (hnew : P (TenantRegistry.register env workspacePath now ∅).1) :
    Holds P (tenants.register env workspacePath now).2.1 := by
  unfold TenantRegistry.register
  dsimp only
  split
  · exact h
  · intro t handle hget
    rw [OrderedMap.get?_set] at hget
    split at hget
    · rw [← Option.some.inj hget]
      exact hnew
    · exact h t handle hget

theorem Holds.evict {P : TenantHandle → Prop} {tenants : TenantRegistry} (h : Holds P tenants)
    (tenantId : String) : Holds P (tenants.evictFromIndex tenantId).1 := by
  intro t handle hget
  rw [TenantRegistry.evictFromIndex, OrderedMap.get?_delete] at hget
  split at hget
  · cases hget
  · exact h t handle hget

/-- Every tenant there is, and every one that a registry may load, has a property. -/
structure AllHold (P : TenantHandle → Prop) (s : TenancyDisk) : Prop where
  registries : ∀ tenants ∈ s.registries, Holds P tenants
  saved : Holds P s.saved

theorem AllHold.change {P : TenantHandle → Prop} (h : AllHold P s) {tenants : TenantRegistry}
    (htenants : Holds P tenants) (registry : Nat) (saves : Bool) (write : IndexWrite) :
    AllHold P (s.change registry tenants saves write) := by
  have hregistries : ∀ t ∈ s.registries.set registry tenants, Holds P t := by
    intro t ht
    rcases List.mem_or_eq_of_mem_set ht with ht | rfl
    · exact h.registries t ht
    · exact htenants
  cases saves with
  | false => exact ⟨hregistries, h.saved⟩
  | true =>
    cases write with
    | written => exact ⟨hregistries, htenants⟩
    | failed => exact ⟨hregistries, h.saved⟩
    | torn bytes =>
      refine ⟨hregistries, ?_⟩
      show Holds P (if bytes < tenants.indexBytes.length then ∅ else tenants)
      split
      · exact fun _ _ hget => nomatch hget
      · exact htenants

/-- A tenant that a call makes has the property. -/
def Makes (env : RegistryEnv) (P : TenantHandle → Prop) : DiskInput → Prop
  | .register _ workspacePath now _ => P (TenantRegistry.register env workspacePath now ∅).1
  | _ => True

theorem AllHold.step {P : TenantHandle → Prop} (h : AllHold P s) (hshows : Shows s a)
    {i : DiskInput} (hi : Makes env P i) : AllHold P (step env s i) := by
  cases i with
  | create =>
    simp only [TenancyDisk.step, hshows.file, hshows.saved]
    refine ⟨fun tenants htenants => ?_, h.saved⟩
    rcases List.mem_append.mp htenants with htenants | htenants
    · exact h.registries tenants htenants
    · rw [List.mem_singleton.mp htenants]
      exact h.saved
  | register registry workspacePath now write =>
    cases hget : s.registries[registry]? with
    | none => simpa only [TenancyDisk.step, hget] using h
    | some tenants =>
      have hold := h.registries tenants (List.mem_of_getElem? hget)
      simpa only [TenancyDisk.step, hget] using
        h.change (hold.register workspacePath now hi) registry _ write
  | evictFromIndex registry tenantId write =>
    cases hget : s.registries[registry]? with
    | none => simpa only [TenancyDisk.step, hget] using h
    | some tenants =>
      have hold := h.registries tenants (List.mem_of_getElem? hget)
      simpa only [TenancyDisk.step, hget] using h.change (hold.evict tenantId) registry _ write

/-- Each tenant of each registry was made by a call of `register`, and has not changed since. -/
def Registered (env : RegistryEnv) (is : List DiskInput) (s : TenancyDisk) : Prop :=
  ∀ tenants ∈ s.registries, ∀ t handle, tenants.get? t = some handle →
    ∃ registry workspacePath now write,
      DiskInput.register registry workspacePath now write ∈ is ∧
        handle = (TenantRegistry.register env workspacePath now ∅).1

/-- In every run on the bytes of the file, whichever saves fail or are cut off. -/
theorem tenants_registered (env : RegistryEnv) (is : List DiskInput) :
    Registered env is (Run.run (step env) {} is) := by
  let P (handle : TenantHandle) : Prop := ∃ registry workspacePath now write,
    DiskInput.register registry workspacePath now write ∈ is ∧
      handle = (TenantRegistry.register env workspacePath now ∅).1
  have hrun (js : List DiskInput) (hjs : ∀ j ∈ js, Makes env P j) {s : TenancyDisk}
      {a : TenancyState} (h : AllHold P s) (hshows : Shows s a) (ha : TenancyState.Inv env a) :
      AllHold P (Run.run (step env) s js) := by
    induction js generalizing s a with
    | nil => exact h
    | cons j js ih =>
      obtain ⟨hj, hjs⟩ := List.forall_mem_cons.mp hjs
      obtain ⟨i, -, hstep⟩ := hshows.step ha j
      exact ih hjs (h.step hshows hj) hstep (ha.step i)
  have hmakes : ∀ i ∈ is, Makes env P i := by
    intro i hi
    cases i with
    | create => trivial
    | register registry workspacePath now write =>
      exact ⟨registry, workspacePath, now, write, hi, rfl⟩
    | evictFromIndex => trivial
  have hinit : AllHold P {} :=
    ⟨fun _ h => absurd h List.not_mem_nil, fun _ _ hget => nomatch hget⟩
  exact (hrun is hmakes hinit shows_init
    ⟨trivial, fun _ h => absurd h List.not_mem_nil⟩).registries

end TenancyDisk

end KirkForge
