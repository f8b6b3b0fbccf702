import KirkForge.Theory.Doubles
import KirkForge.Theory.JsonText
import Mathlib.Data.List.Sort

/-!
# Values that are read from JSON

A program does not hold the value that a JSON text spells, but what ECMAScript makes of it: numbers
are doubles, of which the large ones are infinite, and the members of an object stand in the order
in which ECMAScript lists them (`read`). Where such a value is written again, an infinity becomes
`null`; a value without infinities is read back (`read_stringify`).
-/

namespace KirkForge.Json

/-! ### The order of members -/

/-- The key is an array index. -/
def isIndex (key : String) : Bool :=
  let cs := key.toList
  cs ≠ [] && cs.all Char.isDigit && (cs.head? ≠ some '0' || cs = ['0']) &&
    natOfDigits cs < 2 ^ 32 - 1

/-- Array indices come first, in ascending order. -/
def Precedes (k l : String) : Prop :=
  isIndex l = true → isIndex k = true ∧ natOfDigits k.toList ≤ natOfDigits l.toList

instance (k l : String) : Decidable (Precedes k l) := inferInstanceAs (Decidable (_ → _))

theorem precedes_total (k l : String) : Precedes k l ∨ Precedes l k := by
  unfold Precedes
  cases isIndex k <;> cases isIndex l <;> simp [Nat.le_total]

theorem Precedes.trans {k l m : String} (h : Precedes k l) (h' : Precedes l m) : Precedes k m :=
  fun hm => ⟨(h (h' hm).1).1, (h (h' hm).1).2.trans (h' hm).2⟩

def orderKeys (fields : List (String × Json)) : List (String × Json) :=
  fields.insertionSort fun a b => Precedes a.1 b.1

/-- The keys are distinct, and in the order in which ECMAScript lists them. -/
def Ordered (keys : List String) : Prop := keys.Nodup ∧ keys.Pairwise Precedes

instance (keys : List String) : Decidable (Ordered keys) := inferInstanceAs (Decidable (_ ∧ _))

theorem ordered_orderKeys {fields : List (String × Json)} (h : (fields.map Prod.fst).Nodup) :
    Ordered ((orderKeys fields).map Prod.fst) := by
  let r (a b : String × Json) : Prop := Precedes a.1 b.1
  have : Std.Total r := ⟨fun a b => precedes_total a.1 b.1⟩
  have : IsTrans (String × Json) r := ⟨fun _ _ _ => Precedes.trans⟩
  refine ⟨?_, List.pairwise_map.mpr (List.pairwise_insertionSort r fields)⟩
  exact (((List.perm_insertionSort r fields).map Prod.fst).nodup_iff).mpr h

theorem orderKeys_of_ordered {fields : List (String × Json)} (h : Ordered (fields.map Prod.fst)) :
    orderKeys fields = fields :=
  (List.pairwise_map.mp h.2).insertionSort_eq

/-! ### Numbers and keys -/

mutual
/-- All numbers are in `N`, and the keys of every object in `K`. -/
def All (N : ℚ → Prop) (K : List String → Prop) : Json → Prop
  | num q => N q
  | arr items => AllItems N K items
  | obj fields => K (fields.map Prod.fst) ∧ AllFields N K fields
  | null | bool _ | str _ => True

def AllItems (N : ℚ → Prop) (K : List String → Prop) : List Json → Prop
  | [] => True
  | j :: items => All N K j ∧ AllItems N K items

def AllFields (N : ℚ → Prop) (K : List String → Prop) : List (String × Json) → Prop
  | [] => True
  | (_, j) :: fields => All N K j ∧ AllFields N K fields
end

section
variable {N : ℚ → Prop} {K : List String → Prop}

theorem allItems_iff {items : List Json} : AllItems N K items ↔ ∀ j ∈ items, All N K j := by
  induction items with
  | nil => simp [AllItems]
  | cons j items ih => simp [AllItems, ih]

theorem allFields_iff {fields : List (String × Json)} :
    AllFields N K fields ↔ ∀ e ∈ fields, All N K e.2 := by
  induction fields with
  | nil => simp [AllFields]
  | cons e fields ih => simp [AllFields, ih]

theorem all_lookup {fields : List (String × Json)} (h : AllFields N K fields) {key : String}
    {v : Json} (hv : OrderedMap.lookup key fields = some v) : All N K v := by
  induction fields with
  | nil => cases hv
  | cons e fields ih =>
    rw [OrderedMap.lookup] at hv
    split at hv
    · cases hv
      exact h.1
    · exact ih h.2 hv

theorem all_get? {j v : Json} (h : All N K j) {key : String} (hv : j.get? key = some v) :
    All N K v := by
  cases j with
  | obj fields => exact all_lookup h.2 hv
  | null | bool b | num q | str s | arr items => cases hv

end

mutual
theorem wellFormed_of_all {N : ℚ → Prop} {K : List String → Prop}
    (hN : ∀ q, N q → JsNumber.IsDecimal q) (hK : ∀ keys, K keys → keys.Nodup) (j : Json)
    (h : All N K j) : j.WellFormed := by
  cases j with
  | num q => exact hN q h
  | arr items => exact itemsWellFormed_of_all hN hK items h
  | obj fields => exact ⟨hK _ h.1, fieldsWellFormed_of_all hN hK fields h.2⟩
  | null | bool b | str s => trivial

theorem itemsWellFormed_of_all {N : ℚ → Prop} {K : List String → Prop}
    (hN : ∀ q, N q → JsNumber.IsDecimal q) (hK : ∀ keys, K keys → keys.Nodup) (items : List Json)
    (h : AllItems N K items) : ItemsWellFormed items := by
  cases items with
  | nil => trivial
  | cons j items =>
    exact ⟨wellFormed_of_all hN hK j h.1, itemsWellFormed_of_all hN hK items h.2⟩

theorem fieldsWellFormed_of_all {N : ℚ → Prop} {K : List String → Prop}
    (hN : ∀ q, N q → JsNumber.IsDecimal q) (hK : ∀ keys, K keys → keys.Nodup)
    (fields : List (String × Json)) (h : AllFields N K fields) : FieldsWellFormed fields := by
  cases fields with
  | nil => trivial
  | cons e fields =>
    obtain ⟨k, j⟩ := e
    exact ⟨wellFormed_of_all hN hK j h.1, fieldsWellFormed_of_all hN hK fields h.2⟩
end

/-! ### Parsing -/

theorem allFields_insert {N : ℚ → Prop} {K : List String → Prop} {fields : List (String × Json)}
    (h : AllFields N K fields) {j : Json} (hj : All N K j) (key : String) :
    AllFields N K (OrderedMap.insert key j fields) := by
  induction fields with
  | nil => exact ⟨hj, trivial⟩
  | cons e fields ih =>
    obtain ⟨k, v⟩ := e
    rw [OrderedMap.insert]
    split
    · exact ⟨hj, h.2⟩
    · exact ⟨h.1, ih h.2⟩

theorem all_scalar {K : List String → Prop} {cs : List Char} {r : Json × List Char}
    (h : scalar cs = some r) : All (fun _ => True) K r.1 := by
  rw [scalar.eq_def] at h
  split at h
  · cases h; trivial
  · cases h; trivial
  · cases h; trivial
  · obtain ⟨r, -, rfl⟩ := Option.map_eq_some_iff.mp h
    trivial

/-- The keys of every object that is parsed are distinct. -/
theorem all_value (fuel : Nat) :
    (∀ cs r, value fuel cs = some r → All (fun _ => True) List.Nodup r.1) ∧
    (∀ fields cs r, (fields.map Prod.fst).Nodup → AllFields (fun _ => True) List.Nodup fields →
      members fuel fields cs = some r → All (fun _ => True) List.Nodup r.1) ∧
    (∀ items cs r, AllItems (fun _ => True) List.Nodup items → elements fuel items cs = some r →
      All (fun _ => True) List.Nodup r.1) := by
  induction fuel with
  | zero => exact ⟨nofun, nofun, nofun⟩
  | succ fuel ih =>
    obtain ⟨hvalue, hmembers, helements⟩ := ih
    refine ⟨fun cs r h => ?_, fun fields cs r hkeys hall h => ?_, fun items cs r hall h => ?_⟩
    · rw [value] at h
      split at h
      · cases h
      split_ifs at h
      · split at h
        · cases h
          exact ⟨List.nodup_nil, trivial⟩
        · exact hmembers [] _ _ List.nodup_nil trivial h
      · split at h
        · cases h
          trivial
        · exact helements [] _ _ trivial h
      · obtain ⟨s, -, rfl⟩ := Option.map_eq_some_iff.mp h
        trivial
      · exact all_scalar h
    · rw [members] at h
      obtain ⟨_, -, h⟩ := Option.bind_eq_some_iff.mp h
      obtain ⟨key, -, h⟩ := Option.bind_eq_some_iff.mp h
      obtain ⟨_, -, h⟩ := Option.bind_eq_some_iff.mp h
      obtain ⟨v, hv, h⟩ := Option.bind_eq_some_iff.mp h
      have hkeys' := OrderedMap.nodup_insert hkeys key.1 v.1
      have hall' := allFields_insert hall (hvalue _ _ hv) key.1
      dsimp only at h
      split at h
      · exact hmembers _ _ _ hkeys' hall' h
      · obtain ⟨rest, -, rfl⟩ := Option.map_eq_some_iff.mp h
        exact ⟨hkeys', hall'⟩
    · rw [elements] at h
      obtain ⟨v, hv, h⟩ := Option.bind_eq_some_iff.mp h
      have hall' : AllItems (fun _ => True) List.Nodup (items ++ [v.1]) :=
        allItems_iff.mpr (List.forall_mem_append.mpr
          ⟨allItems_iff.mp hall, List.forall_mem_singleton.mpr (hvalue _ _ hv)⟩)
      dsimp only at h
      split at h
      · exact helements _ _ _ hall' h
      · obtain ⟨rest, -, rfl⟩ := Option.map_eq_some_iff.mp h
        exact hall'

theorem all_parse {text : String} {j : Json} (h : parse text = some j) :
    All (fun _ => True) List.Nodup j := by
  obtain ⟨r, hr, h⟩ := Option.bind_eq_some_iff.mp h
  split at h
  · cases h
    exact (all_value _).1 _ _ hr
  · cases h

/-! ### Values that are changed throughout -/

mutual
/-- Every number is replaced, and the members of every object are rearranged. -/
def rebuild (f : ℚ → Json) (g : List (String × Json) → List (String × Json)) : Json → Json
  | num q => f q
  | arr items => arr (rebuildItems f g items)
  | obj fields => obj (g (rebuildFields f g fields))
  | null => null
  | bool b => bool b
  | str s => str s

def rebuildItems (f : ℚ → Json) (g : List (String × Json) → List (String × Json)) :
    List Json → List Json
  | [] => []
  | j :: items => rebuild f g j :: rebuildItems f g items

def rebuildFields (f : ℚ → Json) (g : List (String × Json) → List (String × Json)) :
    List (String × Json) → List (String × Json)
  | [] => []
  | (k, j) :: fields => (k, rebuild f g j) :: rebuildFields f g fields
end

section
variable {f : ℚ → Json} {g : List (String × Json) → List (String × Json)}
  {N N' : ℚ → Prop} {K K' : List String → Prop}

theorem keys_rebuildFields (fields : List (String × Json)) :
    (rebuildFields f g fields).map Prod.fst = fields.map Prod.fst := by
  induction fields with
  | nil => rfl
  | cons e fields ih => rw [rebuildFields, List.map_cons, ih, List.map_cons]

mutual
theorem all_rebuild (hf : ∀ q, N q → All N' K' (f q))
    (hg : ∀ fields, K (fields.map Prod.fst) → AllFields N' K' fields → All N' K' (obj (g fields)))
    (j : Json) (h : All N K j) : All N' K' (rebuild f g j) := by
  cases j with
  | num q => exact hf q h
  | arr items => exact allItems_rebuild hf hg items h
  | obj fields =>
    refine hg _ ?_ (allFields_rebuild hf hg fields h.2)
    rw [keys_rebuildFields]
    exact h.1
  | null | bool b | str s => trivial

theorem allItems_rebuild (hf : ∀ q, N q → All N' K' (f q))
    (hg : ∀ fields, K (fields.map Prod.fst) → AllFields N' K' fields → All N' K' (obj (g fields)))
    (items : List Json) (h : AllItems N K items) : AllItems N' K' (rebuildItems f g items) := by
  cases items with
  | nil => trivial
  | cons j items => exact ⟨all_rebuild hf hg j h.1, allItems_rebuild hf hg items h.2⟩

theorem allFields_rebuild (hf : ∀ q, N q → All N' K' (f q))
    (hg : ∀ fields, K (fields.map Prod.fst) → AllFields N' K' fields → All N' K' (obj (g fields)))
    (fields : List (String × Json)) (h : AllFields N K fields) :
    AllFields N' K' (rebuildFields f g fields) := by
  cases fields with
  | nil => trivial
  | cons e fields =>
    obtain ⟨k, j⟩ := e
    exact ⟨all_rebuild hf hg j h.1, allFields_rebuild hf hg fields h.2⟩
end

mutual
theorem rebuild_eq_self (hf : ∀ q, N q → f q = num q)
    (hg : ∀ fields, K (fields.map Prod.fst) → g fields = fields) (j : Json) (h : All N K j) :
    rebuild f g j = j := by
  cases j with
  | num q => exact hf q h
  | arr items => exact congrArg arr (rebuildItems_eq_self hf hg items h)
  | obj fields => rw [rebuild, rebuildFields_eq_self hf hg fields h.2, hg fields h.1]
  | null | bool b | str s => rfl

theorem rebuildItems_eq_self (hf : ∀ q, N q → f q = num q)
    (hg : ∀ fields, K (fields.map Prod.fst) → g fields = fields) (items : List Json)
    (h : AllItems N K items) : rebuildItems f g items = items := by
  cases items with
  | nil => rfl
  | cons j items =>
    rw [rebuildItems, rebuild_eq_self hf hg j h.1, rebuildItems_eq_self hf hg items h.2]

theorem rebuildFields_eq_self (hf : ∀ q, N q → f q = num q)
    (hg : ∀ fields, K (fields.map Prod.fst) → g fields = fields) (fields : List (String × Json))
    (h : AllFields N K fields) : rebuildFields f g fields = fields := by
  cases fields with
  | nil => rfl
  | cons e fields =>
    obtain ⟨k, j⟩ := e
    rw [rebuildFields, rebuild_eq_self hf hg j h.1, rebuildFields_eq_self hf hg fields h.2]
end

end

/-! ### Reading -/

/-- The value that a program holds. -/
def held : Json → Json := rebuild (fun q => num (JsNumber.double q)) orderKeys

/-- `JSON.parse(text)` as the program holds it. -/
def read (text : String) : Option Json := (parse text).map held

/-- A number that a program may hold. -/
def IsDouble (q : ℚ) : Prop := JsNumber.double q = q

theorem allFields_orderKeys {N : ℚ → Prop} {K : List String → Prop} {fields : List (String × Json)}
    (h : AllFields N K fields) : AllFields N K (orderKeys fields) :=
  allFields_iff.mpr fun e he => allFields_iff.mp h e ((List.mem_insertionSort _).mp he)

theorem all_held {N : ℚ → Prop} {j : Json} (h : All N List.Nodup j) :
    All IsDouble Ordered (held j) := by
  refine all_rebuild (fun q _ => ?_) (fun fields hkeys hall => ?_) j h
  · exact JsNumber.double_double q
  · exact ⟨ordered_orderKeys hkeys, allFields_orderKeys hall⟩

theorem all_read {text : String} {j : Json} (h : read text = some j) : All IsDouble Ordered j := by
  obtain ⟨j, hj, rfl⟩ := Option.map_eq_some_iff.mp h
  exact all_held (all_parse hj)

/-- Nothing changes in a value that a program holds. -/
theorem held_eq_self {N : ℚ → Prop} (hN : ∀ q, N q → IsDouble q) {j : Json}
    (h : All N Ordered j) : held j = j :=
  rebuild_eq_self (fun q hq => congrArg num (hN q hq)) (fun _ => orderKeys_of_ordered) j h

/-! ### Writing -/

def writtenNumber (q : ℚ) : Json := if JsNumber.infinity ≤ |q| then null else num q

/-- What `JSON.stringify` writes of a value: `null` for an infinity. -/
def written : Json → Json := rebuild writtenNumber id

/-- A number that a program may hold, and that is not infinite. -/
def IsFinite (q : ℚ) : Prop := IsDouble q ∧ |q| < JsNumber.infinity

instance (q : ℚ) : Decidable (IsFinite q) :=
  inferInstanceAs (Decidable (JsNumber.double q = q ∧ |q| < JsNumber.infinity))

theorem all_written {j : Json} (h : All IsDouble Ordered j) : All IsFinite Ordered (written j) := by
  refine all_rebuild (fun q hq => ?_) (fun _ hkeys hall => ⟨hkeys, hall⟩) j h
  rw [writtenNumber]
  split
  · trivial
  · next hlt => exact ⟨hq, not_le.mp hlt⟩

/-- A value without infinities is written as it is. -/
theorem written_eq_self {K : List String → Prop} {j : Json} (h : All IsFinite K j) :
    written j = j :=
  rebuild_eq_self (fun _ hq => if_neg (not_le.mpr hq.2)) (fun _ _ => rfl) j h

theorem lookup_rebuildFields {f : ℚ → Json} {g : List (String × Json) → List (String × Json)}
    (key : String) (fields : List (String × Json)) :
    OrderedMap.lookup key (rebuildFields f g fields) =
      (OrderedMap.lookup key fields).map (rebuild f g) := by
  induction fields with
  | nil => rfl
  | cons e fields ih =>
    obtain ⟨k, j⟩ := e
    rw [rebuildFields, OrderedMap.lookup, OrderedMap.lookup, ih]
    split <;> rfl

theorem str?_written (j : Json) : j.written.str? = j.str? := by
  cases j with
  | num q =>
    rw [written, rebuild, writtenNumber]
    split <;> rfl
  | _ => rfl

theorem get?_written (j : Json) (key : String) :
    (j.written.get? key).bind str? = (j.get? key).bind str? := by
  cases j with
  | num q =>
    rw [written, rebuild, writtenNumber]
    split <;> rfl
  | obj fields =>
    show (OrderedMap.lookup key (rebuildFields writtenNumber id fields)).bind str? =
      (OrderedMap.lookup key fields).bind str?
    rw [lookup_rebuildFields]
    cases OrderedMap.lookup key fields with
    | none => rfl
    | some v => exact str?_written v
  | _ => rfl

theorem wellFormed_of_finite {j : Json} (h : All IsFinite Ordered j) : j.WellFormed :=
  wellFormed_of_all (fun q (hq : IsFinite q) => hq.1 ▸ JsNumber.isDecimal_double q)
    (fun _ => And.left) j h

/-- A value without infinities is read back. -/
theorem read_stringify {j : Json} (h : All IsFinite Ordered j) :
    read (String.ofList (JsValue.stringify j)) = some j := by
  rw [read, parse_stringify (wellFormed_of_finite h), Option.map_some,
    held_eq_self (fun _ => And.left) h]

end KirkForge.Json

namespace KirkForge.JsValue

mutual
/-- A value that was read, as one of ECMAScript. -/
def ofRead : Json → JsValue
  | .null => null
  | .bool b => bool b
  | .num q => number (JsNumber.ofRead q)
  | .str s => string s
  | .arr items => array (ofReadItems items)
  | .obj fields => object (ofReadFields fields)

def ofReadItems : List Json → JsElements
  | [] => .nil
  | j :: items => .cons (ofRead j) (ofReadItems items)

def ofReadFields : List (String × Json) → JsMembers
  | [] => .nil
  | (k, j) :: fields => .cons k (ofRead j) (ofReadFields fields)
end

mutual
theorem toJson_ofRead (j : Json) : toJson (ofRead j) = some j.written := by
  cases j with
  | num q =>
    rw [ofRead, JsNumber.ofRead, Json.written, Json.rebuild, Json.writtenNumber]
    split
    · split <;> rfl
    · rfl
  | arr items => rw [ofRead, toJson, elementsToJson_ofReadItems items]; rfl
  | obj fields => rw [ofRead, toJson, membersToJson_ofReadFields fields]; rfl
  | null | bool b | str s => rfl

theorem elementsToJson_ofReadItems (items : List Json) :
    elementsToJson (ofReadItems items) = Json.rebuildItems Json.writtenNumber id items := by
  cases items with
  | nil => rfl
  | cons j items =>
    rw [ofReadItems, elementsToJson, toJson_ofRead j, elementsToJson_ofReadItems items]
    rfl

theorem membersToJson_ofReadFields (fields : List (String × Json)) :
    membersToJson (ofReadFields fields) = Json.rebuildFields Json.writtenNumber id fields := by
  cases fields with
  | nil => rfl
  | cons e fields =>
    obtain ⟨k, j⟩ := e
    simp only [ofReadFields, membersToJson, toJson_ofRead j, membersToJson_ofReadFields fields]
    rfl
end

end KirkForge.JsValue
