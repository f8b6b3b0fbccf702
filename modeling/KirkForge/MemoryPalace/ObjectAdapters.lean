import KirkForge.MemoryPalace.Types

/-!
# Adapters that hold objects

`FileAdapter` and `InMemoryAdapter` (`memory-palace/src/adapters/`): a list of objects, which a
write extends and a query goes through. The objects of a `FileAdapter` are read from its file on the
first use and stay in memory from then on. What `persist` writes to the file is not read again.
-/

namespace KirkForge

/-- What the file of a `FileAdapter` holds when it is read. -/
inductive DiskFile
  | missing
  | unreadable (message : String)
  | malformed (index : Nat)
  | objects (list : List MemoryObject)

structure FileAdapter where
  filePath : String
  objects : List MemoryObject := []
  loaded : Bool := false
  loadError : Option String := none

structure InMemoryAdapter where
  objects : List MemoryObject := []

/-- What an adapter that holds objects meets with when it is called: whether each write gets the
lock of the file, and what the file holds. -/
structure ObjectIo where
  lock : Nat → Bool
  disk : DiskFile

namespace MemoryQuery

/-- Whether an object passes the filters of a query. An empty text does not filter. -/
def selects (q : MemoryQuery) (o : MemoryObject) : Bool :=
  q.kind.all (fun kind => kind = "" || o.kind = kind) &&
    q.tags.all (fun tags => tags.any fun t => o.tags.contains t) &&
    q.since.all fun since => since = "" || Text.le since o.timestamp

/-- What the two adapters make of a query, the latest object first. There is no limit of zero.
`localeCompare` is that of strings. -/
def results (localeCompare : String → String → Ordering) (q : MemoryQuery)
    (objects : List MemoryObject) : List MemoryObject :=
  let results := (objects.filter q.selects).mergeSort fun a b =>
    (localeCompare b.timestamp a.timestamp).isLE
  match q.limit with
  | some limit => if limit = 0 then results else results.take limit
  | none => results

/-- A query for a kind gives all objects of the kind if the limit allows. -/
theorem results_perm (localeCompare : String → String → Ordering) {kind : String} (hkind : kind ≠ "")
    {limit : Nat} {objects : List MemoryObject}
    (h : (objects.filter fun o => o.kind = kind).length ≤ limit) :
    (results localeCompare { kind := some kind, limit := some limit } objects).Perm
      (objects.filter fun o => o.kind = kind) := by
  have hselects :
      selects { kind := some kind, limit := some limit } = fun o => decide (o.kind = kind) := by
    funext o
    simp [selects, hkind]
  have hsorted := List.mergeSort_perm (objects.filter fun o => o.kind = kind)
    fun a b => (localeCompare b.timestamp a.timestamp).isLE
  simp only [results, hselects]
  split
  · exact hsorted
  · rwa [List.take_of_length_le (by rwa [hsorted.length_eq])]

end MemoryQuery

namespace FileAdapter

def load (disk : DiskFile) (a : FileAdapter) : FileAdapter :=
  if a.loaded then a
  else match disk with
    | .missing => { a with objects := [], loaded := true }
    | .objects list => { a with objects := list, loaded := true }
    | .malformed index =>
      { a with
        objects := []
        loaded := true
        loadError := some ("Memory file contains malformed object at index " ++ toString index ++
          ": each object must have string id, kind, taskId, and timestamp. File: " ++ a.filePath) }
    | .unreadable message =>
      { a with
        objects := []
        loaded := true
        loadError := some ("Memory file corrupted: " ++ a.filePath ++ ". Backup saved to " ++
          a.filePath ++ ".corrupt. Original error: " ++ message) }

def write (lock : Bool) (disk : DiskFile) (obj : MemoryObject) (a : FileAdapter) :
    Except String Unit × FileAdapter :=
  if lock then
    let a := a.load disk
    match a.loadError with
    | some cause => (.error cause, a)
    | none => (.ok (), { a with objects := a.objects ++ [obj] })
  else (.error "FileAdapter: could not acquire lock for write after 3s", a)

def query (localeCompare : String → String → Ordering) (disk : DiskFile) (q : MemoryQuery)
    (a : FileAdapter) : Except String (List MemoryObject) × FileAdapter :=
  let a := a.load disk
  match a.loadError with
  | some cause => (.error cause, a)
  | none => (.ok (q.results localeCompare a.objects), a)

end FileAdapter

namespace InMemoryAdapter

def write (obj : MemoryObject) (a : InMemoryAdapter) : Except String Unit × InMemoryAdapter :=
  (.ok (), { a with objects := a.objects ++ [obj] })

def query (localeCompare : String → String → Ordering) (q : MemoryQuery) (a : InMemoryAdapter) :
    Except String (List MemoryObject) × InMemoryAdapter :=
  (.ok (q.results localeCompare a.objects), a)

end InMemoryAdapter

/-- An adapter that holds objects. Neither kind has any of the optional methods. -/
inductive ObjectAdapter
  | file (a : FileAdapter)
  | inMemory (a : InMemoryAdapter)

namespace ObjectAdapter

/-- The `i`-th write of a call. -/
def write (io : ObjectIo) (i : Nat) (obj : MemoryObject) :
    ObjectAdapter → Except String Unit × ObjectAdapter
  | file a => (a.write (io.lock i) io.disk obj).map id file
  | inMemory a => (a.write obj).map id inMemory

def query (localeCompare : String → String → Ordering) (disk : DiskFile) (q : MemoryQuery) :
    ObjectAdapter → Except String (List MemoryObject) × ObjectAdapter
  | file a => (a.query localeCompare disk q).map id file
  | inMemory a => (a.query localeCompare q).map id inMemory

/-- The objects that the adapter goes by when it is called. -/
def objects (disk : DiskFile) : ObjectAdapter → List MemoryObject
  | file a => (a.load disk).objects
  | inMemory a => a.objects

/-- The objects that the adapter has in memory. -/
def memory : ObjectAdapter → List MemoryObject
  | file a => a.objects
  | inMemory a => a.objects

/-- The adapter goes by the objects in memory. -/
def Ready : ObjectAdapter → Prop
  | file a => a.loaded = true ∧ a.loadError = none
  | inMemory _ => True

theorem load_of_loaded {a : FileAdapter} (h : a.loaded = true) (disk : DiskFile) :
    a.load disk = a := if_pos h

theorem loaded_load (a : FileAdapter) (disk : DiskFile) : (a.load disk).loaded = true := by
  unfold FileAdapter.load
  split
  · assumption
  · cases disk <;> rfl

theorem objects_of_ready {a : ObjectAdapter} (h : a.Ready) (disk : DiskFile) :
    a.objects disk = a.memory := by
  cases a with
  | file a => exact congrArg FileAdapter.objects (load_of_loaded h.1 disk)
  | inMemory a => rfl

/-- A write that succeeds adds the object, and from then on the objects no longer depend on the
file. A write that fails changes nothing. -/
theorem write_cases (io : ObjectIo) (i : Nat) (obj : MemoryObject) (a : ObjectAdapter) :
    (a.write io i obj).1 = .ok () ∧ (a.write io i obj).2.Ready ∧
        (a.write io i obj).2.objects io.disk = a.objects io.disk ++ [obj] ∨
      (∃ cause, (a.write io i obj).1 = .error cause) ∧ (a.Ready → (a.write io i obj).2 = a) ∧
        (a.write io i obj).2.objects io.disk = a.objects io.disk := by
  cases a with
  | inMemory a => exact .inl ⟨rfl, trivial, rfl⟩
  | file a =>
    have hloaded := loaded_load a io.disk
    simp only [write, FileAdapter.write]
    split
    · cases herror : (a.load io.disk).loadError with
      | none =>
        let written : FileAdapter :=
          { a.load io.disk with
            objects := (a.load io.disk).objects ++ [obj]
            loadError := none }
        have hwritten : written.load io.disk = written := if_pos hloaded
        exact .inl ⟨rfl, ⟨hloaded, rfl⟩, congrArg FileAdapter.objects hwritten⟩
      | some cause =>
        refine .inr ⟨⟨cause, rfl⟩, fun hready => ?_, ?_⟩
        · rw [Prod.map_snd, load_of_loaded hready.1]
        · simp only [objects, Prod.map_snd, load_of_loaded hloaded]
    · exact .inr ⟨⟨_, rfl⟩, fun _ => rfl, rfl⟩

theorem query_of_ready {localeCompare : String → String → Ordering} {a : ObjectAdapter}
    (h : a.Ready) (disk : DiskFile) (q : MemoryQuery) :
    a.query localeCompare disk q = (.ok (q.results localeCompare a.memory), a) := by
  cases a with
  | file a => simp [query, FileAdapter.query, memory, load_of_loaded h.1, h.2]
  | inMemory a => rfl

end ObjectAdapter

end KirkForge
