import KirkForge.MemoryPalace.ObjectAdapters
import KirkForge.Theory.JsonRead
import KirkForge.Theory.Run

/-!
# Durability of a file of objects

One `FileAdapter` (`memory-palace/src/adapters/file.ts`) and the text of its file, from one `await`
to the next. Calls overlap in any way; a wait for the lock, a reading of the file and each step of a
flush may fail, and the lock file may stay behind. Whatever has failed before, once a `persist` has
completed without an error a fresh adapter has the objects whose write had completed, in their order
and with the same JSON (`writes_durable`).
-/

namespace KirkForge

/-- What `JSON.stringify` writes for an element of an array. -/
def JsValue.content (v : JsValue) : Json := v.toJson.getD .null

def MemoryObject.value (o : MemoryObject) : JsValue :=
  .object <|
    .cons "id" (.string o.id) <|
    .cons "kind" (.string o.kind) <|
    .cons "taskId" (.string o.taskId) <|
    .cons "runId" (.optional o.runId) <|
    .cons "timestamp" (.string o.timestamp) <|
    .cons "description" (.string o.description) <|
    .cons "properties" (.object o.properties) <|
    .cons "tags" (.ofStrings o.tags) .nil

/-- An object of the language: its numbers are doubles, and the keys of every object in it are
distinct and in the order of the language. -/
structure HeldObject where
  object : MemoryObject
  held : Json.All Json.IsFinite Json.Ordered object.value.content

def HeldObject.json (o : HeldObject) : Json := o.object.value.content

/-! ### The text of the file -/

structure FileProcessEnv where
  filePath : String
  /-- The message of the error that `JSON.parse` throws. -/
  syntaxError : String → String

/-- A string stands under each of the keys. -/
def wellShaped (j : Json) : Bool :=
  ["id", "kind", "taskId", "timestamp"].all fun key => ((j.get? key).bind Json.str?).isSome

/-- What `FileAdapter.load` says of a file that is not as it should be. -/
def loadErrorText (env : FileProcessEnv) (disk : DiskFile) : String :=
  ((FileAdapter.load disk { filePath := env.filePath }).loadError).getD ""

/-- The objects of a text, or what is wrong with it. -/
def parseFile (env : FileProcessEnv) (text : String) : Except String (List Json) :=
  match Json.read text with
  | none => .error (loadErrorText env (.unreadable (env.syntaxError text)))
  | some (.arr items) =>
    match items.findIdx? fun j => !wellShaped j with
    | some index => .error (loadErrorText env (.malformed index))
    | none => .ok items
  | some _ =>
    .error (loadErrorText env
      (.unreadable ("Memory file does not contain an array: " ++ env.filePath)))

def readFile (env : FileProcessEnv) : Option String → Except String (List Json)
  | none => .ok []
  | some text => parseFile env text

/-- `JSON.stringify(this.objects)` -/
def fileText (contents : List Json) : String :=
  String.ofList (JsValue.stringify (.arr contents))

/-! ### Calls that overlap -/

/-- A call of `write` or of `persist`, by what it waits for. -/
inductive FileCall
  /-- A `write` waits for the lock. -/
  | writeWaiting (obj : HeldObject)
  /-- It has the lock and waits for `load`. -/
  | writeLoading (obj : HeldObject)
  /-- A flush waits for the lock. -/
  | flushWaiting
  /-- It has the lock and waits for `mkdir`. -/
  | flushStarting
  /-- It writes the data to a temporary file and renames that. -/
  | flushWriting (data : String)
  | done

def FileCall.holdsLock : FileCall → Bool
  | writeLoading _ | flushStarting | flushWriting _ => true
  | writeWaiting _ | flushWaiting | done => false

def FileCall.isFlush : FileCall → Bool
  | flushWaiting | flushStarting | flushWriting _ => true
  | writeWaiting _ | writeLoading _ | done => false

/-- The adapter, its file and its calls. -/
structure FileProcess where
  file : Option String
  /-- There is a lock file. -/
  lock : Bool := false
  objects : List JsValue := []
  dirty : Bool := false
  loaded : Bool := false
  loadError : Option String := none
  calls : List FileCall := []
  /-- The objects whose write has completed. -/
  written : List HeldObject := []
  /-- Those of them whose write had completed when a `persist` last completed without an error. -/
  persisted : List HeldObject := []

inductive FileProcessInput
  /-- A call of `write`. -/
  | write (obj : HeldObject)
  /-- A call of `persist`. -/
  | persist
  /-- A `query`, a `read` or `stats`. -/
  | load (readError : Option String)
  /-- The lock file is created, which it is only if there is none. -/
  | lock (i : Nat)
  /-- The wait for the lock ends without it, and perhaps leaves a lock file. -/
  | noLock (i : Nat) (created : Bool)
  /-- The file has been read for a write. -/
  | push (i : Nat) (readError : Option String) (released : Bool)
  /-- The directory is there and the data is taken, or one of these fails. -/
  | take (i : Nat) (ok released : Bool)
  /-- The temporary file has been renamed, or it could not be written or renamed. -/
  | rename (i : Nat) (ok released : Bool)

namespace FileProcess

variable (env : FileProcessEnv)

def load (s : FileProcess) (readError : Option String) : FileProcess :=
  let reading : Except String (List Json) := match readError with
    | some message => .error (loadErrorText env (.unreadable message))
    | none => readFile env s.file
  if s.loaded then s
  else match reading with
    | .ok items => { s with objects := items.map JsValue.ofRead, loaded := true }
    | .error cause => { s with objects := [], loaded := true, loadError := some cause }

/-- The end of a call that has the lock. The lock file stays if it cannot be synchronized. -/
def finish (s : FileProcess) (i : Nat) (released : Bool) : FileProcess :=
  { s with calls := s.calls.set i .done, lock := !released }

/-- What is left of a write once the file has been read. -/
def push (s : FileProcess) (obj : HeldObject) : FileProcess :=
  match s.loadError with
  | some _ => s
  | none =>
    { s with
      objects := s.objects ++ [obj.object.value]
      dirty := true
      written := s.written ++ [obj] }

def step (s : FileProcess) : FileProcessInput → FileProcess
  | .write obj => { s with calls := s.calls ++ [.writeWaiting obj] }
  | .persist =>
    if s.dirty then { s with calls := s.calls ++ [.flushWaiting] }
    else { s with persisted := s.written }
  | .load readError => s.load env readError
  | .lock i =>
    if s.lock then s
    else match s.calls[i]? with
      | some (.writeWaiting obj) =>
        { s with lock := true, calls := s.calls.set i (.writeLoading obj) }
      | some .flushWaiting => { s with lock := true, calls := s.calls.set i .flushStarting }
      | _ => s
  | .noLock i created =>
    match s.calls[i]? with
    | some (.writeWaiting _) =>
      { s with lock := s.lock || created, calls := s.calls.set i .done }
    | some .flushWaiting =>
      { s with lock := s.lock || created, calls := s.calls.set i .done, dirty := true }
    | _ => s
  | .push i readError released =>
    match s.calls[i]? with
    | some (.writeLoading obj) => ((s.load env readError).push obj).finish i released
    | _ => s
  | .take i ok released =>
    match s.calls[i]? with
    | some .flushStarting =>
      if ok then
        { s with
          calls := s.calls.set i (.flushWriting (fileText (s.objects.map JsValue.content))) }
      else { s.finish i released with dirty := true }
    | _ => s
  | .rename i ok released =>
    match s.calls[i]? with
    | some (.flushWriting data) =>
      if ok then
        { s.finish i released with file := some data, dirty := false, persisted := s.written }
      else { s.finish i released with dirty := true }
    | _ => s

/-- A new adapter that has read the file. -/
def fresh (file : Option String) : FileProcess := load env { file } none

def contents (s : FileProcess) : List Json := s.objects.map JsValue.content

def timestamp (v : JsValue) : String := ((v.content.get? "timestamp").bind Json.str?).getD ""

/-- `query({})` once the file has been read. -/
def all (localeCompare : String → String → Ordering) (s : FileProcess) : List JsValue :=
  s.objects.mergeSort fun a b => (localeCompare (timestamp b) (timestamp a)).isLE

/-! ### One call has the lock -/

/-- At most one call has the lock, and only while there is a lock file. -/
def Exclusive (calls : List FileCall) (lock : Bool) : Prop :=
  ∃ holder : Option Nat,
    (∀ i c, calls[i]? = some c → FileCall.holdsLock c = true → holder = some i) ∧
      (holder ≠ none → lock = true)

section
variable {calls calls' : List FileCall} {lock lock' : Bool}

theorem Exclusive.eq_of_holdsLock (h : Exclusive calls lock) {i j : Nat} {c d : FileCall}
    (hi : calls[i]? = some c) (hc : c.holdsLock = true) (hj : calls[j]? = some d)
    (hd : d.holdsLock = true) : i = j := by
  obtain ⟨holder, hcalls, -⟩ := h
  exact Option.some.inj ((hcalls i c hi hc).symm.trans (hcalls j d hj hd))

/-- Calls go on, but none that has not had the lock has it now. -/
theorem Exclusive.sub (h : Exclusive calls lock)
    (hcalls : ∀ (i : Nat) (c : FileCall), calls'[i]? = some c → c.holdsLock = true →
      ∃ d, calls[i]? = some d ∧ d.holdsLock = true)
    (hlock : lock = true → lock' = true) : Exclusive calls' lock' := by
  obtain ⟨holder, hholder, hlocked⟩ := h
  refine ⟨holder, fun i c hi hc => ?_, fun hne => hlock (hlocked hne)⟩
  obtain ⟨d, hd, hholds⟩ := hcalls i c hi hc
  exact hholder i d hd hholds

theorem Exclusive.append (h : Exclusive calls lock) {c : FileCall} (hc : c.holdsLock = false) :
    Exclusive (calls ++ [c]) lock := by
  refine h.sub (fun i d hi hd => ?_) id
  rw [List.getElem?_append] at hi
  split at hi
  · exact ⟨d, hi, hd⟩
  · obtain rfl := List.mem_singleton.mp (List.mem_of_getElem? hi)
    rw [hc] at hd
    cases hd

/-- A call with the lock keeps it, and one without it gets none. -/
theorem Exclusive.set (h : Exclusive calls lock) {i : Nat} {c d : FileCall}
    (hi : calls[i]? = some c) (hcd : d.holdsLock = true → c.holdsLock = true)
    (hlock : lock = true → lock' = true) : Exclusive (calls.set i d) lock' := by
  refine h.sub (fun j e hj he => ?_) hlock
  rw [List.getElem?_set] at hj
  split at hj
  · next hij =>
    split at hj
    · cases hj
      exact ⟨c, hij ▸ hi, hcd he⟩
    · cases hj
  · exact ⟨e, hj, he⟩

theorem Exclusive.acquire (h : Exclusive calls false) (i : Nat) (c : FileCall) :
    Exclusive (calls.set i c) true := by
  obtain ⟨holder, hholder, hlocked⟩ := h
  refine ⟨some i, fun j d hj hd => ?_, fun _ => rfl⟩
  rw [List.getElem?_set] at hj
  split at hj
  · next hij => rw [hij]
  · cases hlocked (by rw [hholder j d hj hd]; exact Option.some_ne_none j)

theorem Exclusive.finish (h : Exclusive calls lock) {i : Nat} {c : FileCall}
    (hi : calls[i]? = some c) (hc : c.holdsLock = true) : Exclusive (calls.set i .done) lock' := by
  refine ⟨none, fun j d hj hd => ?_, fun hne => absurd rfl hne⟩
  rw [List.getElem?_set] at hj
  split at hj
  · split at hj
    · cases hj
      cases hd
    · cases hj
  · next hij => exact absurd (h.eq_of_holdsLock hi hc hj hd) hij

end

variable {env} {s : FileProcess}

@[simp] theorem calls_load (readError : Option String) :
    (s.load env readError).calls = s.calls := by
  simp only [load]
  split
  · rfl
  · split <;> rfl

@[simp] theorem lock_load (readError : Option String) : (s.load env readError).lock = s.lock := by
  simp only [load]
  split
  · rfl
  · split <;> rfl

@[simp] theorem calls_push (obj : HeldObject) : (s.push obj).calls = s.calls := by
  rw [push]
  split <;> rfl

theorem exclusive_step (h : Exclusive s.calls s.lock) (input : FileProcessInput) :
    Exclusive (s.step env input).calls (s.step env input).lock := by
  cases input with
  | write obj => exact h.append rfl
  | persist =>
    rw [step]
    split
    · exact h.append rfl
    · exact h
  | load readError =>
    rw [step, calls_load, lock_load]
    exact h
  | lock i =>
    rw [step]
    split
    · exact h
    · next hlock =>
      rw [Bool.not_eq_true] at hlock
      split
      · exact (hlock ▸ h).acquire i _
      · exact (hlock ▸ h).acquire i _
      · exact h
  | noLock i created =>
    rw [step]
    have hlock : s.lock = true → (s.lock || created) = true := fun hlock => by rw [hlock]; rfl
    split
    · next hi => exact h.set hi nofun hlock
    · next hi => exact h.set hi nofun hlock
    · exact h
  | push i readError released =>
    rw [step]
    split
    · next hi =>
      rw [FileProcess.finish, calls_push, calls_load]
      exact h.finish hi rfl
    · exact h
  | take i ok released =>
    rw [step]
    split
    · next hi =>
      split
      · exact h.set hi (fun _ => rfl) id
      · exact h.finish hi rfl
    · exact h
  | rename i ok released =>
    rw [step]
    split
    · next hi =>
      split
      · exact h.finish hi rfl
      · exact h.finish hi rfl
    · exact h

/-! ### What is in the file -/

/-- Nothing has been written, and the file is as it was. -/
structure Untouched (env : FileProcessEnv) (file : Option String) (s : FileProcess) : Prop where
  file_eq : s.file = file
  written : s.written = []
  persisted : s.persisted = []
  clean : s.dirty = false
  no_flush : ∀ c ∈ s.calls, FileCall.isFlush c = false
  objects : s.loaded = true → s.loadError = none →
    ∃ items, readFile env file = .ok items ∧ s.objects = items.map JsValue.ofRead

/-- Of the objects that have been written the file has those of `done`, after what it had before. -/
structure Filled (items : List Json) (done rest : List HeldObject) (s : FileProcess) : Prop where
  loaded : s.loaded = true
  loadError : s.loadError = none
  objects : s.objects = items.map JsValue.ofRead ++ s.written.map fun o => o.object.value
  written : s.written = done ++ rest
  persisted : s.persisted <+: done
  file_eq : done ≠ [] →
    s.file = some (fileText (items.map Json.written ++ done.map HeldObject.json))
  clean : s.dirty = false → rest = []
  taken : ∀ data, .flushWriting data ∈ s.calls → data = fileText s.contents

def Sound (env : FileProcessEnv) (file : Option String) (s : FileProcess) : Prop :=
  Untouched env file s ∨ ∃ items done rest, readFile env file = .ok items ∧ Filled items done rest s

theorem content_ofRead (j : Json) : (JsValue.ofRead j).content = j.written := by
  rw [JsValue.content, JsValue.toJson_ofRead]
  rfl

theorem contents_of_objects {items : List Json} {list : List HeldObject}
    (h : s.objects = items.map JsValue.ofRead ++ list.map fun o => o.object.value) :
    s.contents = items.map Json.written ++ list.map HeldObject.json := by
  rw [contents, h, List.map_append, List.map_map, List.map_map]
  congr 1
  exact List.map_congr_left fun j _ => content_ofRead j

variable {file : Option String}

theorem Sound.init : Sound env file { file } :=
  .inl ⟨rfl, rfl, rfl, rfl, nofun, nofun⟩

/-- Only a dirty adapter begins a flush, and the data of a flush are those in memory. -/
def Joins (s : FileProcess) (c : FileCall) : Prop := FileCall.isFlush c = false ∨
  ((s.dirty = true ∨ ∃ d ∈ s.calls, FileCall.isFlush d = true) ∧
    ∀ data, c = .flushWriting data → data = fileText s.contents)

/-- Calls come, go on and end, and a flush may leave the adapter dirty. -/
theorem Sound.calls (h : Sound env file s) {calls : List FileCall} {lock dirty : Bool}
    (hcalls : ∀ c ∈ calls, c ∈ s.calls ∨ s.Joins c)
    (hdirty : dirty = s.dirty ∨ dirty = true ∧ ∃ d ∈ s.calls, FileCall.isFlush d = true) :
    Sound env file { s with calls, lock, dirty } := by
  obtain h | ⟨items, done, rest, hread, h⟩ := h
  · have hno : ¬∃ d ∈ s.calls, FileCall.isFlush d = true := fun ⟨d, hd, hflush⟩ => by
      rw [h.no_flush d hd] at hflush
      cases hflush
    refine .inl ⟨h.file_eq, h.written, h.persisted, ?_, fun c hc => ?_, h.objects⟩
    · obtain rfl | ⟨-, hflush⟩ := hdirty
      · exact h.clean
      · exact absurd hflush hno
    · obtain hc | hc | ⟨hdirty | hflush, -⟩ := hcalls c hc
      · exact h.no_flush c hc
      · exact hc
      · rw [h.clean] at hdirty
        cases hdirty
      · exact absurd hflush hno
  · refine .inr ⟨items, done, rest, hread, h.loaded, h.loadError, h.objects, h.written, h.persisted,
      h.file_eq, fun hclean => ?_, fun data hdata => ?_⟩
    · obtain rfl | ⟨rfl, -⟩ := hdirty
      · exact h.clean hclean
      · cases hclean
    · obtain hdata | hdata | ⟨-, hdata⟩ := hcalls _ hdata
      · exact h.taken data hdata
      · cases hdata
      · exact hdata data rfl

/-- A call begins. -/
theorem Sound.begin (h : Sound env file s) {c : FileCall} (hc : s.Joins c) :
    Sound env file { s with calls := s.calls ++ [c] } := by
  refine h.calls (fun d hd => (List.mem_append.mp hd).imp_right fun hd => ?_) (.inl rfl)
  rwa [List.mem_singleton.mp hd]

/-- A call goes on. -/
theorem Sound.set (h : Sound env file s) (i : Nat) {c : FileCall} (hc : s.Joins c)
    {lock dirty : Bool}
    (hdirty : dirty = s.dirty ∨ dirty = true ∧ ∃ d ∈ s.calls, FileCall.isFlush d = true) :
    Sound env file { s with calls := s.calls.set i c, lock, dirty } := by
  refine h.calls (fun d hd => (List.mem_or_eq_of_mem_set hd).imp_right fun hd => ?_) hdirty
  rwa [hd]

/-- A call ends. -/
theorem Sound.set_done (h : Sound env file s) (i : Nat) {lock dirty : Bool}
    (hdirty : dirty = s.dirty ∨ dirty = true ∧ ∃ d ∈ s.calls, FileCall.isFlush d = true) :
    Sound env file { s with calls := s.calls.set i .done, lock, dirty } :=
  h.set i (.inl rfl) hdirty

/-- A `persist` has nothing to do. -/
theorem Sound.persist_clean (h : Sound env file s) (hclean : s.dirty = false) :
    Sound env file { s with persisted := s.written } := by
  obtain h | ⟨items, done, rest, hread, h⟩ := h
  · exact .inl { h with persisted := h.written }
  · obtain rfl := h.clean hclean
    exact .inr ⟨items, done, [], hread, { h with
      persisted := by rw [h.written, List.append_nil] }⟩

theorem loaded_load (readError : Option String) : (s.load env readError).loaded = true := by
  simp only [load]
  split
  · assumption
  · split <;> rfl

theorem Sound.load (h : Sound env file s) (readError : Option String) :
    Sound env file (s.load env readError) := by
  obtain h | ⟨items, done, rest, hread, h⟩ := h
  · simp only [FileProcess.load]
    split
    · exact .inl h
    · split
      · next items hitems =>
        refine .inl ⟨h.file_eq, h.written, h.persisted, h.clean, h.no_flush, fun _ _ =>
          ⟨items, ?_, rfl⟩⟩
        split at hitems
        · cases hitems
        · rwa [h.file_eq] at hitems
      · exact .inl ⟨h.file_eq, h.written, h.persisted, h.clean, h.no_flush, nofun⟩
  · simp only [FileProcess.load, if_pos h.loaded]
    exact .inr ⟨items, done, rest, hread, h⟩

/-- A write is completed while no flush writes. -/
theorem Sound.push (h : Sound env file s) (hloaded : s.loaded = true) (obj : HeldObject)
    (hno : ∀ data, .flushWriting data ∉ s.calls) : Sound env file (s.push obj) := by
  rw [FileProcess.push]
  split
  · exact h
  · next hnone =>
    obtain h | ⟨items, done, rest, hread, h⟩ := h
    · obtain ⟨items, hread, hobjects⟩ := h.objects hloaded hnone
      refine .inr ⟨items, [], [obj], hread, hloaded, hnone, ?_, ?_, ?_, fun hne => absurd rfl hne,
        nofun, fun data hdata => absurd hdata (hno data)⟩
      · rw [hobjects, h.written]
        rfl
      · rw [h.written]
      · rw [h.persisted]
    · refine .inr ⟨items, done, rest ++ [obj], hread, hloaded, hnone, ?_, ?_, h.persisted,
        h.file_eq, nofun, fun data hdata => absurd hdata (hno data)⟩
      · rw [h.objects, List.map_append, List.append_assoc]
        rfl
      · rw [h.written, List.append_assoc]

/-- A flush is completed. -/
theorem Sound.rename (h : Sound env file s) {data : String} (hdata : .flushWriting data ∈ s.calls)
    (i : Nat) (released : Bool) :
    Sound env file { s.finish i released with
      file := some data, dirty := false, persisted := s.written } := by
  obtain h | ⟨items, done, rest, hread, h⟩ := h
  · have := h.no_flush _ hdata
    cases this
  · refine .inr ⟨items, s.written, [], hread, h.loaded, h.loadError, h.objects,
      (List.append_nil _).symm, List.prefix_rfl, fun _ => ?_, fun _ => rfl, fun data' hdata' => ?_⟩
    · rw [h.taken data hdata, contents_of_objects h.objects]
    · obtain hdata' | hdata' := List.mem_or_eq_of_mem_set hdata'
      · exact h.taken data' hdata'
      · cases hdata'

theorem sound_step (h : Sound env file s) (hone : Exclusive s.calls s.lock)
    (input : FileProcessInput) : Sound env file (s.step env input) := by
  cases input with
  | write obj => exact h.begin (.inl rfl)
  | persist =>
    rw [step]
    split
    · next hdirty => exact h.begin (.inr ⟨.inl hdirty, nofun⟩)
    · next hclean => exact h.persist_clean (Bool.not_eq_true _ ▸ hclean)
  | load readError => exact h.load readError
  | lock i =>
    rw [step]
    split
    · exact h
    · split
      · exact h.set i (.inl rfl) (.inl rfl)
      · next hi =>
        have hflush : ∃ d ∈ s.calls, FileCall.isFlush d = true :=
          ⟨_, List.mem_of_getElem? hi, rfl⟩
        refine h.set i (.inr ⟨.inr hflush, ?_⟩) (.inl rfl)
        nofun
      · exact h
  | noLock i created =>
    rw [step]
    split
    · exact h.set_done i (.inl rfl)
    · next hi => exact h.set_done i (.inr ⟨rfl, _, List.mem_of_getElem? hi, rfl⟩)
    · exact h
  | push i readError released =>
    rw [step]
    split
    · next obj hi =>
      refine ((h.load readError).push (loaded_load readError) obj fun data hdata => ?_).set_done i
        (.inl rfl)
      -- the lock is held by the write, so that no flush is writing
      rw [calls_load] at hdata
      obtain ⟨j, hj⟩ := List.mem_iff_getElem?.mp hdata
      obtain rfl := hone.eq_of_holdsLock hi rfl hj rfl
      rw [hi] at hj
      cases hj
    · exact h
  | take i ok released =>
    rw [step]
    split
    · next hi =>
      have hflush : ∃ d ∈ s.calls, FileCall.isFlush d = true :=
        ⟨_, List.mem_of_getElem? hi, rfl⟩
      split
      · refine h.set i (.inr ⟨.inr hflush, fun data hdata => ?_⟩) (.inl rfl)
        cases hdata
        rfl
      · exact h.set_done i (.inr ⟨rfl, hflush⟩)
    · exact h
  | rename i ok released =>
    rw [step]
    split
    · next data hi =>
      have hmem := List.mem_of_getElem? hi
      split
      · exact h.rename hmem i released
      · exact h.set_done i (.inr ⟨rfl, _, hmem, rfl⟩)
    · exact h

/-! ### What a fresh adapter reads -/

theorem wellShaped_written (j : Json) : wellShaped j.written = wellShaped j := by
  simp only [wellShaped, Json.get?_written]

theorem wellShaped_json (o : HeldObject) : wellShaped o.json = true := by
  obtain ⟨⟨id, kind, taskId, runId, timestamp, description, properties, tags⟩, -⟩ := o
  cases runId <;> rfl

theorem parseFile_fileText {contents : List Json}
    (hheld : ∀ j ∈ contents, Json.All Json.IsFinite Json.Ordered j)
    (hshape : ∀ j ∈ contents, wellShaped j = true) :
    parseFile env (fileText contents) = .ok contents := by
  have hread : Json.read (fileText contents) = some (.arr contents) :=
    Json.read_stringify (Json.allItems_iff.mpr hheld)
  have hnone : (contents.findIdx? fun j => !wellShaped j) = none :=
    List.findIdx?_eq_none_iff.mpr fun j hj => by rw [hshape j hj]; rfl
  simp only [parseFile, hread, hnone]

/-- What is read of a file is of the language and has the shape of an object. -/
theorem of_readFile {items : List Json} (h : readFile env file = .ok items) :
    ∀ j ∈ items, Json.All Json.IsDouble Json.Ordered j ∧ wellShaped j = true := by
  cases file with
  | none =>
    cases h
    exact nofun
  | some text =>
    rw [readFile, parseFile] at h
    split at h
    · cases h
    · next items' hread =>
      split at h
      · cases h
      · next hnone =>
        cases h
        intro j hj
        refine ⟨Json.allItems_iff.mp (Json.all_read hread) j hj, ?_⟩
        simpa using List.findIdx?_eq_none_iff.mp hnone j hj
    · cases h

/-- A fresh adapter reads what a flush has written. -/
theorem fresh_fileText {items : List Json} (hitems : readFile env file = .ok items)
    (list : List HeldObject) :
    let s := fresh env (some (fileText (items.map Json.written ++ list.map HeldObject.json)))
    s.loadError = none ∧ s.contents = items.map Json.written ++ list.map HeldObject.json := by
  have hparse : parseFile env (fileText (items.map Json.written ++ list.map HeldObject.json)) =
      .ok (items.map Json.written ++ list.map HeldObject.json) := by
    refine parseFile_fileText (List.forall_mem_append.mpr ⟨?_, ?_⟩)
      (List.forall_mem_append.mpr ⟨?_, ?_⟩)
    · exact List.forall_mem_map.mpr fun j hj => Json.all_written (of_readFile hitems j hj).1
    · exact List.forall_mem_map.mpr fun o _ => o.held
    · exact List.forall_mem_map.mpr fun j hj =>
        (wellShaped_written j).trans (of_readFile hitems j hj).2
    · exact List.forall_mem_map.mpr fun o _ => wellShaped_json o
  have hself : ∀ j ∈ items.map Json.written ++ list.map HeldObject.json, j.written = j := by
    refine List.forall_mem_append.mpr ⟨List.forall_mem_map.mpr fun j hj => ?_,
      List.forall_mem_map.mpr fun o _ => Json.written_eq_self o.held⟩
    exact Json.written_eq_self (Json.all_written (of_readFile hitems j hj).1)
  have hfresh : fresh env (some (fileText (items.map Json.written ++ list.map HeldObject.json))) =
      { file := some (fileText (items.map Json.written ++ list.map HeldObject.json))
        objects := (items.map Json.written ++ list.map HeldObject.json).map JsValue.ofRead
        loaded := true } := by
    simp only [fresh, load, readFile, hparse]
    rfl
  intro s
  refine ⟨congrArg loadError hfresh, (congrArg contents hfresh).trans ?_⟩
  rw [contents, List.map_map]
  exact (List.map_congr_left fun j hj => (content_ofRead j).trans (hself j hj)).trans
    (List.map_id _)

/-! ### Every run -/

/-- A fresh adapter on the file has the objects whose write had completed when a `persist` last
completed without an error, after those that the file had at the start and before later ones. As
long as nothing has been written since, it has what the adapter has, and answers in its order. -/
structure Durable (env : FileProcessEnv) (file : Option String) (s : FileProcess) : Prop where
  persisted : s.persisted <+: s.written
  found : s.persisted ≠ [] → ∃ items later, readFile env file = .ok items ∧
    s.persisted ++ later <+: s.written ∧ (fresh env s.file).loadError = none ∧
    (fresh env s.file).contents =
      items.map Json.written ++ (s.persisted ++ later).map HeldObject.json
  same : s.dirty = false → s.written ≠ [] → (fresh env s.file).loadError = none ∧
    (fresh env s.file).contents = s.contents ∧
    ∀ localeCompare, ((fresh env s.file).all localeCompare).map JsValue.content =
      (s.all localeCompare).map JsValue.content

theorem map_content_all (localeCompare : String → String → Ordering) (s : FileProcess) :
    (s.all localeCompare).map JsValue.content = s.contents.mergeSort fun a b =>
      (localeCompare (((b.get? "timestamp").bind Json.str?).getD "")
        (((a.get? "timestamp").bind Json.str?).getD "")).isLE :=
  List.map_mergeSort fun _ _ _ _ => rfl

theorem Sound.durable (h : Sound env file s) : Durable env file s := by
  obtain h | ⟨items, done, rest, hread, h⟩ := h
  · refine ⟨by rw [h.persisted]; exact List.nil_prefix, fun hne => absurd h.persisted hne,
      fun _ hne => absurd h.written hne⟩
  · have hwritten : done <+: s.written := ⟨rest, h.written.symm⟩
    refine ⟨h.persisted.trans hwritten, fun hne => ?_, fun hclean hne => ?_⟩
    · obtain ⟨later, rfl⟩ := h.persisted
      obtain ⟨herror, hcontents⟩ := fresh_fileText hread (s.persisted ++ later)
      rw [← h.file_eq (by simp [hne])] at herror hcontents
      exact ⟨items, later, hread, hwritten, herror, hcontents⟩
    · obtain rfl := h.clean hclean
      obtain rfl : s.written = done := by rw [h.written, List.append_nil]
      obtain ⟨herror, hcontents⟩ := fresh_fileText hread s.written
      rw [← h.file_eq hne] at herror hcontents
      rw [← contents_of_objects h.objects] at hcontents
      refine ⟨herror, hcontents, fun localeCompare => ?_⟩
      rw [map_content_all, map_content_all, hcontents]

/-- In every run of writes and persists, whatever fails, a fresh adapter has all that was written
before a `persist` that has completed without an error. -/
theorem writes_durable (env : FileProcessEnv) (file : Option String)
    (inputs : List FileProcessInput) :
    Run.AllStates (step env) (Durable env file) { file } inputs := by
  have hinv : Run.AllStates (step env)
      (fun s => Sound env file s ∧ Exclusive s.calls s.lock) { file } inputs :=
    Run.allStates_of_forall (fun s input h => ⟨sound_step h.1 h.2 input, exclusive_step h.2 input⟩)
      ⟨.init, none, nofun, fun hne => absurd rfl hne⟩
  exact hinv.mono fun s h => h.1.durable

/-- A flush that fails leaves its objects to the next one. -/
example (env : FileProcessEnv) (obj : HeldObject) :
    (Run.run (step env) { file := none } [.write obj, .lock 0, .push 0 none true, .persist, .lock 1,
      .take 1 true true, .rename 1 false true, .persist, .lock 2, .take 2 true true,
      .rename 2 true true]).persisted = [obj] := by
  simp [Run.run, step, load, push, finish, readFile]

end FileProcess

end KirkForge
