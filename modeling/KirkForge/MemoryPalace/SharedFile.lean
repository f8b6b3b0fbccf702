import KirkForge.MemoryPalace.ObjectAdapters
import KirkForge.Theory.Run
import Mathlib.Logic.Function.Basic

/-!
# Adapters that share a file

Any number of `FileAdapter`s on one file (`memory-palace/src/adapters/file.ts`). Each reads the file
once and writes all of its objects whenever it persists. A write and a rewrite of the file hold the
lock, so each is one step here; a call of `persist` looks at `dirty` before it waits for the lock.
-/

namespace KirkForge

/-- What `JSON.parse(JSON.stringify(obj))` makes of an object. -/
def MemoryObject.revive (o : MemoryObject) : MemoryObject :=
  { o with properties := JsValue.ofFields (JsValue.membersToJson o.properties) }

theorem MemoryObject.revive_revive (o : MemoryObject) : o.revive.revive = o.revive := by
  simp only [revive, JsValue.membersToJson_ofFields]

structure OpenFile extends FileAdapter where
  dirty : Bool := false

/-- The file, the adapters on it and the flushes that wait for its lock. -/
structure SharedFile (ι : Type) where
  file : DiskFile
  adapter : ι → OpenFile
  waiting : ι → Nat
  /-- The objects whose write has returned ok. -/
  written : ι → List MemoryObject
  /-- Those whose adapter has completed a `persist` without an error since. -/
  persisted : List MemoryObject

inductive SharedInput (ι : Type)
  /-- A write; the lock may not be had in time, and reading the file may fail. -/
  | write (i : ι) (lock : Bool) (readError : Option String) (obj : MemoryObject)
  /-- A call of `persist`, up to the wait for the lock. -/
  | persist (i : ι)
  /-- The end of such a wait: whether there is a lock, and whether the file is written and
  renamed. -/
  | flush (i : ι) (lock renamed : Bool)

namespace SharedFile

variable {ι : Type} [DecidableEq ι]

def init (file : DiskFile) (filePath : String) : SharedFile ι where
  file
  adapter := fun _ => { filePath }
  waiting := fun _ => 0
  written := fun _ => []
  persisted := []

/-- What an adapter finds when it reads the file. -/
def reading (s : SharedFile ι) (readError : Option String) : DiskFile :=
  match readError with
  | some message => .unreadable message
  | none => s.file

def write (s : SharedFile ι) (i : ι) (lock : Bool) (readError : Option String)
    (obj : MemoryObject) : SharedFile ι :=
  let a := s.adapter i
  match a.toFileAdapter.write lock (s.reading readError) obj with
  | (.ok (), a') =>
    { s with
      adapter := Function.update s.adapter i { a' with dirty := true }
      written := Function.update s.written i (s.written i ++ [obj]) }
  | (.error _, a') =>
    { s with adapter := Function.update s.adapter i { a' with dirty := a.dirty } }

def setDirty (s : SharedFile ι) (i : ι) (dirty : Bool) : SharedFile ι :=
  { s with adapter := Function.update s.adapter i { s.adapter i with dirty } }

/-- `persist` has completed without an error. -/
def complete (s : SharedFile ι) (i : ι) : SharedFile ι :=
  { s with persisted := s.persisted ++ s.written i }

def rewrite (s : SharedFile ι) (i : ι) : SharedFile ι :=
  { s with file := .objects ((s.adapter i).objects.map MemoryObject.revive) }

def step (s : SharedFile ι) : SharedInput ι → SharedFile ι
  | .write i lock readError obj => s.write i lock readError obj
  | .persist i =>
    if (s.adapter i).dirty then
      { s with waiting := Function.update s.waiting i (s.waiting i + 1) }
    else s.complete i
  | .flush i lock renamed =>
    if s.waiting i = 0 then s
    else
      let s := { s with waiting := Function.update s.waiting i (s.waiting i - 1) }
      if lock && renamed then ((s.rewrite i).setDirty i false).complete i else s.setDirty i true

/-! ### What is kept -/

/-- A fresh adapter on the file finds the object among all that there are. -/
def Found (localeCompare : String → String → Ordering) (file : DiskFile) (o : MemoryObject) : Prop :=
  ∀ filePath, ∃ found,
    (FileAdapter.query localeCompare file {} { filePath }).1 = .ok found ∧ o.revive ∈ found

/-- What was written and persisted is in the file and is found there. -/
def Kept (localeCompare : String → String → Ordering) (s : SharedFile ι) : Prop :=
  ∀ o ∈ s.persisted, (∃ list, s.file = .objects list ∧ o.revive ∈ list) ∧
    Found localeCompare s.file o

/-- An adapter that rewrites the file has in memory what the others have persisted. -/
def UpToDate (s : SharedFile ι) : SharedInput ι → Prop
  | .write .. | .persist _ => True
  | .flush i lock renamed => s.waiting i ≠ 0 → lock = true → renamed = true →
      ∀ o ∈ s.persisted, ∃ o' ∈ (s.adapter i).objects, o'.revive = o.revive

theorem found_of_mem (localeCompare : String → String → Ordering) {list : List MemoryObject}
    {o : MemoryObject} (ho : o.revive ∈ list) : Found localeCompare (.objects list) o := by
  intro filePath
  refine ⟨_, rfl, ?_⟩
  have hall : list.filter (MemoryQuery.selects {}) = list :=
    List.filter_eq_self.mpr fun _ _ => rfl
  show o.revive ∈ (list.filter (MemoryQuery.selects {})).mergeSort _
  rw [hall]
  exact List.mem_mergeSort.mpr ho

omit [DecidableEq ι] in
theorem kept_iff {localeCompare : String → String → Ordering} {s : SharedFile ι} :
    Kept localeCompare s ↔
      ∀ o ∈ s.persisted, ∃ list, s.file = .objects list ∧ o.revive ∈ list := by
  refine ⟨fun h o ho => (h o ho).1, fun h o ho => ⟨h o ho, ?_⟩⟩
  obtain ⟨list, hfile, hmem⟩ := h o ho
  rw [hfile]
  exact found_of_mem localeCompare hmem

omit [DecidableEq ι] in
/-- An adapter that reads the file now knows all that has been persisted. -/
theorem known_of_load {localeCompare : String → String → Ordering} {s : SharedFile ι}
    (h : Kept localeCompare s) {a : FileAdapter} (hloaded : a.loaded = false) {o : MemoryObject}
    (ho : o ∈ s.persisted) : ∃ o' ∈ (a.load s.file).objects, o'.revive = o.revive := by
  obtain ⟨list, hfile, hmem⟩ := (h o ho).1
  refine ⟨o.revive, ?_, o.revive_revive⟩
  rw [hfile, FileAdapter.load, if_neg (Bool.eq_false_iff.mp hloaded)]
  exact hmem

/-- The adapter has in memory what it has written, and a flag that is not set says that all of it
has been persisted. -/
structure Accounts (a : OpenFile) (written persisted : List MemoryObject) : Prop where
  written_mem : ∀ o ∈ written, o ∈ a.objects
  loaded : written ≠ [] → a.loaded = true
  clean : a.dirty = false → ∀ o ∈ written, o ∈ persisted

def Inv (s : SharedFile ι) : Prop := ∀ i, Accounts (s.adapter i) (s.written i) s.persisted

theorem Accounts.mono {a : OpenFile} {written persisted persisted' : List MemoryObject}
    (h : Accounts a written persisted) (hsub : persisted ⊆ persisted') :
    Accounts a written persisted' :=
  ⟨h.written_mem, h.loaded, fun hdirty o ho => hsub (h.clean hdirty o ho)⟩

/-- A write reads the file at most once, before the adapter has written anything. -/
theorem Accounts.write {a : OpenFile} {written persisted : List MemoryObject}
    (h : Accounts a written persisted) (lock : Bool) (disk : DiskFile) (obj : MemoryObject) :
    match a.toFileAdapter.write lock disk obj with
    | (.ok (), a') => Accounts { a' with dirty := true } (written ++ [obj]) persisted
    | (.error _, a') => Accounts { a' with dirty := a.dirty } written persisted := by
  have hload (o : MemoryObject) (ho : o ∈ written) : o ∈ (a.toFileAdapter.load disk).objects := by
    rw [ObjectAdapter.load_of_loaded (h.loaded (List.ne_nil_of_mem ho))]
    exact h.written_mem o ho
  have hloaded := ObjectAdapter.loaded_load a.toFileAdapter disk
  rw [FileAdapter.write]
  cases lock with
  | false => exact h
  | true =>
    rw [if_pos rfl]
    dsimp only
    cases (a.toFileAdapter.load disk).loadError with
    | some cause => exact ⟨hload, fun _ => hloaded, h.clean⟩
    | none =>
      refine ⟨fun o ho => ?_, fun _ => hloaded, by rintro ⟨⟩⟩
      obtain ho | ho := List.mem_append.mp ho
      · exact List.mem_append_left _ (hload o ho)
      · exact List.mem_append_right _ ho

variable {s : SharedFile ι} {i : ι}

theorem Inv.write (h : s.Inv) (i : ι) (lock : Bool) (readError : Option String)
    (obj : MemoryObject) : (s.write i lock readError obj).Inv := by
  have hwrite := (h i).write lock (s.reading readError) obj
  rw [SharedFile.write]
  split at hwrite
  · intro j
    by_cases hj : j = i
    · subst hj
      simpa using hwrite
    · simpa [Function.update_of_ne hj] using h j
  · intro j
    by_cases hj : j = i
    · subst hj
      simpa using hwrite
    · simpa [Function.update_of_ne hj] using h j

theorem Inv.setDirty (h : s.Inv) (i : ι) : (s.setDirty i true).Inv := by
  intro j
  by_cases hj : j = i
  · subst hj
    have hj := h j
    exact ⟨by simpa [SharedFile.setDirty] using hj.written_mem,
      by simpa [SharedFile.setDirty] using hj.loaded, by simp [SharedFile.setDirty]⟩
  · simpa [SharedFile.setDirty, Function.update_of_ne hj] using h j

omit [DecidableEq ι] in
theorem Inv.complete (h : s.Inv) (i : ι) : (s.complete i).Inv := fun j =>
  (h j).mono (List.subset_append_left ..)

/-- A flush that succeeds clears the flag, and all that was written is persisted. -/
theorem Inv.flushed (h : s.Inv) (i : ι) : (((s.rewrite i).setDirty i false).complete i).Inv := by
  intro j
  by_cases hj : j = i
  · subst hj
    have hj := h j
    refine ⟨?_, ?_, fun _ o ho => List.mem_append_right _ ho⟩
    · simpa [SharedFile.setDirty, SharedFile.rewrite, SharedFile.complete] using hj.written_mem
    · simpa [SharedFile.setDirty, SharedFile.rewrite, SharedFile.complete] using hj.loaded
  · have hj' := (h j).mono (List.subset_append_left s.persisted (s.written i))
    simpa [SharedFile.setDirty, SharedFile.rewrite, SharedFile.complete,
      Function.update_of_ne hj] using hj'

theorem Inv.step (h : s.Inv) (input : SharedInput ι) : (s.step input).Inv := by
  cases input with
  | write i lock readError obj => exact h.write i lock readError obj
  | persist i =>
    rw [SharedFile.step]
    split
    · exact h
    · exact h.complete i
  | flush i lock renamed =>
    rw [SharedFile.step]
    split
    · exact h
    · have hw : ({ s with waiting := Function.update s.waiting i (s.waiting i - 1) } :
          SharedFile ι).Inv := h
      dsimp only
      split
      · exact hw.flushed i
      · exact hw.setDirty i

/-- After a step everything persisted is in the file, exactly if the step was up to date. -/
theorem kept_step_iff {localeCompare : String → String → Ordering} (h : s.Inv)
    (hkept : Kept localeCompare s) (input : SharedInput ι) :
    Kept localeCompare (s.step input) ↔ UpToDate s input := by
  cases input with
  | write i lock readError obj =>
    refine iff_of_true ?_ trivial
    rw [SharedFile.step, SharedFile.write]
    split <;> exact hkept
  | persist i =>
    refine iff_of_true ?_ trivial
    rw [SharedFile.step]
    split
    · exact hkept
    · next hdirty =>
      intro o ho
      obtain ho | ho := List.mem_append.mp ho
      · exact hkept o ho
      · exact hkept o ((h i).clean (Bool.eq_false_iff.mpr hdirty) o ho)
  | flush i lock renamed =>
    rw [SharedFile.step, UpToDate]
    by_cases hw : s.waiting i = 0
    · rw [if_pos hw]
      exact iff_of_true hkept fun hne => (hne hw).elim
    · rw [if_neg hw]
      dsimp only
      by_cases hok : (lock && renamed) = true
      · rw [if_pos hok]
        obtain ⟨rfl, rfl⟩ := Bool.and_eq_true_iff.mp hok
        rw [kept_iff]
        constructor
        · intro hfile _ _ _ o ho
          obtain ⟨list, hlist, hmem⟩ := hfile o (List.mem_append_left _ ho)
          cases hlist
          exact List.mem_map.mp hmem
        · intro hup o ho
          refine ⟨_, rfl, List.mem_map.mpr ?_⟩
          obtain ho | ho := List.mem_append.mp ho
          · exact hup hw rfl rfl o ho
          · exact ⟨o, (h i).written_mem o ho, rfl⟩
      · rw [if_neg hok]
        refine iff_of_true hkept fun _ hlock hrenamed => ?_
        rw [hlock, hrenamed] at hok
        exact (hok rfl).elim

omit [DecidableEq ι] in
theorem init_inv (file : DiskFile) (filePath : String) : (init file filePath : SharedFile ι).Inv :=
  fun _ => ⟨nofun, fun h => (h rfl).elim, nofun⟩

theorem sharedFile_keeps_iff (localeCompare : String → String → Ordering) (file : DiskFile)
    (filePath : String) (inputs : List (SharedInput ι)) :
    Run.AllStates step (Kept localeCompare) (init file filePath : SharedFile ι) inputs ↔
      Run.AllSteps step UpToDate (init file filePath : SharedFile ι) inputs := by
  have hinit : (init file filePath : SharedFile ι).Inv ∧
      Kept localeCompare (init file filePath : SharedFile ι) := ⟨init_inv file filePath, nofun⟩
  constructor
  · intro h
    exact Run.allSteps_of_allStates (I := fun s => s.Inv ∧ Kept localeCompare s)
      (fun s input hs hok => ⟨hs.1.step input, (kept_step_iff hs.1 hs.2 input).mpr hok⟩)
      (fun s input hs hkept => (kept_step_iff hs.1 hs.2 input).mp hkept) hinit h
  · intro h
    have hinv := Run.allStates_of_invariant (I := fun s => s.Inv ∧ Kept localeCompare s)
      (fun s input hs hok => ⟨hs.1.step input, (kept_step_iff hs.1 hs.2 input).mpr hok⟩) hinit h
    exact hinv.mono fun _ hs => hs.2

def observation (id : String) : MemoryObject where
  id
  kind := "observation"
  taskId := "task"
  timestamp := "2026-01-01T00:00:00.000Z"
  description := ""
  properties := .nil
  tags := []

/-- Both adapters read the file before either has written it, and the second rewrite loses what the
first has persisted. -/
theorem second_flush_loses_first :
    ¬Run.AllStates step (Kept fun _ _ => .eq) (init .missing "/memory.json" : SharedFile Bool)
      [.write false true none (observation "a"), .write true true none (observation "b"),
        .persist false, .flush false true true, .persist true, .flush true true true] := by
  intro h
  obtain ⟨⟨list, hlist, hmem⟩, -⟩ :=
    h.2.2.2.2.2.2 (observation "a") (List.mem_append_left _ (List.mem_singleton_self _))
  cases hlist
  have hid := congrArg MemoryObject.id (List.mem_singleton.mp hmem)
  exact absurd hid (by decide)

end SharedFile

end KirkForge
