import Mathlib.Data.List.Nodup

/-!
# Insertion-ordered maps

A map that lists its keys in the order in which they were first inserted, as `Map` does in
ECMAScript: overwriting a key keeps its place and deleting it gives the place up. The keys of
`entries` are distinct by construction.
-/

namespace KirkForge

/-- A finite map with its keys in order of first insertion. -/
structure OrderedMap (α β : Type*) where
  entries : List (α × β)
  nodup : (entries.map Prod.fst).Nodup

namespace OrderedMap

variable {α β : Type*} [DecidableEq α]

/-- The value stored at the first entry with key `k`. -/
def lookup (k : α) : List (α × β) → Option β
  | [] => none
  | (k', v) :: rest => if k' = k then some v else lookup k rest

/-- Overwrite the entry at `k`, or append one. -/
def insert (k : α) (v : β) : List (α × β) → List (α × β)
  | [] => [(k, v)]
  | (k', v') :: rest => if k' = k then (k, v) :: rest else (k', v') :: insert k v rest

theorem keys_insert (k : α) (v : β) (l : List (α × β)) :
    (insert k v l).map Prod.fst =
      if k ∈ l.map Prod.fst then l.map Prod.fst else l.map Prod.fst ++ [k] := by
  induction l with
  | nil => simp [insert]
  | cons e rest ih =>
    obtain ⟨k', v'⟩ := e
    by_cases hk : k' = k
    · simp [insert, hk]
    · have hk' : ¬k = k' := fun h => hk h.symm
      simp only [insert, if_neg hk, List.map_cons, List.mem_cons, hk', false_or, ih]
      split <;> simp

theorem nodup_insert {l : List (α × β)} (h : (l.map Prod.fst).Nodup) (k : α) (v : β) :
    ((insert k v l).map Prod.fst).Nodup := by
  rw [keys_insert]
  split
  · exact h
  · next hk =>
    exact List.nodup_append.mpr ⟨h, List.nodup_singleton k, fun a ha b hb => by
      rw [List.mem_singleton.mp hb]; rintro rfl; exact hk ha⟩

theorem lookup_insert (k k' : α) (v : β) (l : List (α × β)) :
    lookup k' (insert k v l) = if k = k' then some v else lookup k' l := by
  induction l with
  | nil => simp [insert, lookup]
  | cons e rest ih =>
    obtain ⟨a, b⟩ := e
    by_cases ha : a = k
    · subst ha
      simp only [insert, if_pos, lookup]
      split <;> rfl
    · simp only [insert, if_neg ha, lookup, ih]
      by_cases hk : k = k'
      · simp [hk, show a ≠ k' from hk ▸ ha]
      · simp [hk]

theorem lookup_filter_ne (k k' : α) (l : List (α × β)) :
    lookup k' (l.filter fun e => e.1 ≠ k) = if k = k' then none else lookup k' l := by
  induction l with
  | nil => simp [lookup]
  | cons e rest ih =>
    obtain ⟨a, b⟩ := e
    by_cases ha : a = k
    · subst ha
      simp only [ne_eq, not_true_eq_false, decide_false, Bool.false_eq_true, not_false_eq_true,
        List.filter_cons_of_neg] at ih ⊢
      rw [ih]
      by_cases hk : a = k' <;> simp [lookup, hk]
    · rw [List.filter_cons_of_pos (by simpa using ha)]
      simp only [lookup, ih]
      by_cases hk : k = k'
      · simp [hk, show a ≠ k' from hk ▸ ha]
      · simp [hk]

theorem lookup_eq_none_iff {k : α} {l : List (α × β)} :
    lookup k l = none ↔ k ∉ l.map Prod.fst := by
  induction l with
  | nil => simp [lookup]
  | cons e rest ih =>
    obtain ⟨a, b⟩ := e
    by_cases ha : a = k
    · simp [lookup, ha]
    · have ha' : ¬k = a := fun h => ha h.symm
      simp [lookup, ha, ha', ih]

theorem insert_append {k : α} {l : List (α × β)} (h : k ∉ l.map Prod.fst) (v : β)
    (r : List (α × β)) : insert k v (l ++ r) = l ++ insert k v r := by
  induction l with
  | nil => rfl
  | cons e l ih =>
    obtain ⟨a, b⟩ := e
    rw [List.map_cons, List.mem_cons, not_or] at h
    rw [List.cons_append, insert, if_neg (Ne.symm h.1), ih h.2, List.cons_append]

theorem lookup_append {k : α} {l : List (α × β)} (h : k ∉ l.map Prod.fst) (r : List (α × β)) :
    lookup k (l ++ r) = lookup k r := by
  induction l with
  | nil => rfl
  | cons e l ih =>
    obtain ⟨a, b⟩ := e
    rw [List.map_cons, List.mem_cons, not_or] at h
    rw [List.cons_append, lookup, if_neg (Ne.symm h.1), ih h.2]

/-- What a fold over entries with distinct keys does to something that is kept for each key, and
that an entry changes at its own key only. -/
theorem foldl_observe {μ γ : Type*} {f : μ → α × β → μ} {o : α → μ → γ} {g : γ → β → γ}
    (hf : ∀ m e k, o k (f m e) = if e.1 = k then g (o k m) e.2 else o k m)
    {l : List (α × β)} (hl : (l.map Prod.fst).Nodup) (m : μ) (k : α) :
    o k (l.foldl f m) = (lookup k l).elim (o k m) (g (o k m)) := by
  induction l generalizing m with
  | nil => rfl
  | cons e l ih =>
    obtain ⟨a, b⟩ := e
    obtain ⟨ha, hl⟩ := List.nodup_cons.mp hl
    rw [List.foldl_cons, ih hl, hf, lookup]
    by_cases hk : a = k
    · subst hk
      rw [if_pos rfl, if_pos rfl, lookup_eq_none_iff.mpr ha]
      rfl
    · rw [if_neg hk, if_neg hk]

/-- A value for each key of a list. -/
theorem lookup_map_key {γ : Type*} (l : List α) (f : α → γ) (k : α) :
    lookup k (l.map fun a => (a, f a)) = if k ∈ l then some (f k) else none := by
  induction l with
  | nil => rfl
  | cons a l ih =>
    by_cases hk : a = k
    · simp [lookup, hk]
    · simp [lookup, hk, ih, Ne.symm hk]

/-! ### The operations -/

def empty : OrderedMap α β := ⟨[], List.nodup_nil⟩

instance : EmptyCollection (OrderedMap α β) := ⟨empty⟩

instance : Inhabited (OrderedMap α β) := ⟨empty⟩

def keys (m : OrderedMap α β) : List α := m.entries.map Prod.fst

def get? (m : OrderedMap α β) (k : α) : Option β := lookup k m.entries

def has (m : OrderedMap α β) (k : α) : Bool := (m.get? k).isSome

def set (m : OrderedMap α β) (k : α) (v : β) : OrderedMap α β :=
  ⟨insert k v m.entries, nodup_insert m.nodup k v⟩

def delete (m : OrderedMap α β) (k : α) : OrderedMap α β :=
  ⟨m.entries.filter fun e => e.1 ≠ k, m.nodup.sublist (List.filter_sublist.map _)⟩

/-- The values that `f` makes of the values, where it makes one. -/
def filterMapValues {γ : Type*} (f : β → Option γ) (m : OrderedMap α β) : OrderedMap α γ where
  entries := m.entries.filterMap fun e => (f e.2).map fun v => (e.1, v)
  nodup := by
    refine m.nodup.sublist ?_
    generalize m.entries = l
    induction l with
    | nil => exact List.Sublist.refl _
    | cons e l ih =>
      rw [List.filterMap_cons]
      cases f e.2 with
      | none => exact ih.cons e.1
      | some v => exact ih.cons_cons e.1

/-- The entries whose key `p` holds of. -/
def retain (p : α → Bool) (m : OrderedMap α β) : OrderedMap α β :=
  ⟨m.entries.filter fun e => p e.1, m.nodup.sublist (List.filter_sublist.map _)⟩

@[simp] theorem get?_empty (k : α) : (∅ : OrderedMap α β).get? k = none := rfl

theorem get?_set (m : OrderedMap α β) (k k' : α) (v : β) :
    (m.set k v).get? k' = if k = k' then some v else m.get? k' :=
  lookup_insert k k' v m.entries

@[simp] theorem get?_set_self (m : OrderedMap α β) (k : α) (v : β) :
    (m.set k v).get? k = some v := by
  simp [get?_set]

theorem get?_set_of_ne (m : OrderedMap α β) {k k' : α} (h : k ≠ k') (v : β) :
    (m.set k v).get? k' = m.get? k' := by
  simp [get?_set, h]

theorem get?_delete (m : OrderedMap α β) (k k' : α) :
    (m.delete k).get? k' = if k = k' then none else m.get? k' :=
  lookup_filter_ne k k' m.entries

theorem get?_retain (p : α → Bool) (m : OrderedMap α β) (k : α) :
    (m.retain p).get? k = if p k then m.get? k else none := by
  obtain ⟨l, hl⟩ := m
  show lookup k (l.filter _) = if p k then lookup k l else none
  clear hl
  induction l with
  | nil => simp [lookup]
  | cons e rest ih =>
    obtain ⟨a, b⟩ := e
    by_cases ha : p a
    · rw [List.filter_cons, if_pos ha, lookup, ih, lookup]
      by_cases hk : a = k
      · simp [hk, show p k from hk ▸ ha]
      · simp [hk]
    · rw [List.filter_cons, if_neg ha, ih, lookup]
      by_cases hk : a = k
      · simp [show ¬p k from hk ▸ ha]
      · simp [hk]

theorem get?_filterMapValues {γ : Type*} (f : β → Option γ) (m : OrderedMap α β) (k : α) :
    (m.filterMapValues f).get? k = (m.get? k).bind f := by
  obtain ⟨l, hl⟩ := m
  show lookup k (l.filterMap _) = (lookup k l).bind f
  induction l with
  | nil => rfl
  | cons e rest ih =>
    obtain ⟨a, b⟩ := e
    obtain ⟨ha, hrest⟩ := List.nodup_cons.mp hl
    rw [List.filterMap_cons, lookup]
    by_cases hk : a = k
    · subst hk
      have hnone : lookup a rest = none := lookup_eq_none_iff.mpr ha
      cases hf : f b with
      | none => simp [ih hrest, hnone, hf]
      | some v => simp [lookup, hf]
    · cases hf : f b with
      | none => simp [ih hrest, hk]
      | some v => simp [lookup, ih hrest, hk]

theorem get?_eq_none_iff {m : OrderedMap α β} {k : α} : m.get? k = none ↔ k ∉ m.keys :=
  lookup_eq_none_iff

theorem has_iff_mem_keys {m : OrderedMap α β} {k : α} : m.has k = true ↔ k ∈ m.keys := by
  rw [has, ← not_iff_not, Bool.not_eq_true, Option.isSome_eq_false_iff, Option.isNone_iff_eq_none,
    get?_eq_none_iff]

theorem mem_entries_iff {m : OrderedMap α β} {k : α} {v : β} :
    (k, v) ∈ m.entries ↔ m.get? k = some v := by
  obtain ⟨l, hl⟩ := m
  show (k, v) ∈ l ↔ lookup k l = some v
  induction l with
  | nil => simp [lookup]
  | cons e rest ih =>
    obtain ⟨a, b⟩ := e
    obtain ⟨ha, hrest⟩ := List.nodup_cons.mp hl
    rw [List.mem_cons, Prod.mk.injEq, ih hrest, lookup]
    split
    · next hk =>
      subst hk
      have hnone : lookup a rest = none := lookup_eq_none_iff.mpr ha
      simp [hnone, eq_comm]
    · next hk => simp [Ne.symm hk]

/-- Overwriting changes the entry of the key and no other. -/
theorem entries_set {m : OrderedMap α β} {k : α} {v : β} (h : m.get? k = some v) (v' : β) :
    (m.set k v').entries = m.entries.map fun e => if e.1 = k then (k, v') else e := by
  have hmem : (k, v) ∈ m.entries := mem_entries_iff.mpr h
  obtain ⟨front, back, hsplit⟩ := List.append_of_mem hmem
  have hnodup := m.nodup
  rw [hsplit, List.map_append, List.map_cons] at hnodup
  have hfront : k ∉ front.map Prod.fst := fun hk =>
    (List.nodup_append.mp hnodup).2.2 k hk k List.mem_cons_self rfl
  have hback : k ∉ back.map Prod.fst :=
    (List.nodup_cons.mp (List.nodup_append.mp hnodup).2.1).1
  have hkeep {l : List (α × β)} (hl : k ∉ l.map Prod.fst) :
      l.map (fun e => if e.1 = k then (k, v') else e) = l := by
    refine (List.map_congr_left fun e he => if_neg ?_).trans (List.map_id l)
    rintro rfl
    exact hl (List.mem_map_of_mem he)
  show insert k v' m.entries = _
  rw [hsplit, insert_append hfront, insert, if_pos rfl, List.map_append, List.map_cons, hkeep hfront,
    hkeep hback, if_pos rfl]

/-- Entries with new keys are appended as they are. -/
theorem entries_foldl_set {m : OrderedMap α β} {l : List (α × β)}
    (h : ((m.entries ++ l).map Prod.fst).Nodup) :
    (l.foldl (fun m e => m.set e.1 e.2) m).entries = m.entries ++ l := by
  induction l generalizing m with
  | nil => exact (List.append_nil m.entries).symm
  | cons e l ih =>
    have hnew : e.1 ∉ m.entries.map Prod.fst := fun hmem => by
      rw [List.map_append] at h
      exact (List.nodup_append.mp h).2.2 e.1 hmem e.1 List.mem_cons_self rfl
    have hset : (m.set e.1 e.2).entries = m.entries ++ [e] := by
      have happend := insert_append hnew e.2 []
      rwa [List.append_nil] at happend
    have hsplit : (m.set e.1 e.2).entries ++ l = m.entries ++ e :: l := by
      rw [hset, List.append_assoc, List.singleton_append]
    rw [List.foldl_cons, ih (hsplit ▸ h), hsplit]

end OrderedMap

/-- The properties that every object inherits. An object that serves as a table has them besides its
own keys. -/
def inheritedProperties : List String :=
  ["constructor", "__defineGetter__", "__defineSetter__", "hasOwnProperty", "__lookupGetter__",
    "__lookupSetter__", "isPrototypeOf", "propertyIsEnumerable", "toString", "valueOf",
    "__proto__", "toLocaleString"]

end KirkForge

/-!
## References into a list that grows

An index maps keys to places in a list of rows to which rows are only ever appended. It is sound
when each reference leads to a row that offers the key it is filed under. A reference may be
overwritten by a later one, and a key may have several.
-/

namespace KirkForge.References

variable {ρ κ : Type*} {offers : ρ → κ → Prop} {rows : List ρ} {refs : κ → Nat → Prop}

/-- Each of the references leads to a row that offers its key. -/
def Sound (offers : ρ → κ → Prop) (rows : List ρ) (refs : κ → Nat → Prop) : Prop :=
  ∀ k i, refs k i → ∃ row, rows[i]? = some row ∧ offers row k

theorem Sound.lt (h : Sound offers rows refs) {k : κ} {i : Nat} (hi : refs k i) :
    i < rows.length := by
  obtain ⟨row, hrow, -⟩ := h k i hi
  exact (List.getElem?_eq_some_iff.mp hrow).1

theorem Sound.of_get? (h : Sound offers rows refs) {k : κ} {i : Nat} {row : ρ} (hi : refs k i)
    (hrow : rows[i]? = some row) : offers row k := by
  obtain ⟨row', hrow', hoffers⟩ := h k i hi
  cases hrow.symm.trans hrow'
  exact hoffers

/-- Rows that are appended move none of the earlier ones. -/
theorem Sound.append (h : Sound offers rows refs) (more : List ρ) :
    Sound offers (rows ++ more) refs := by
  intro k i hi
  obtain ⟨row, hrow, hoffers⟩ := h k i hi
  exact ⟨row, by rw [List.getElem?_append_left (h.lt hi), hrow], hoffers⟩

variable [DecidableEq κ] {k : κ} {i : Nat} {row : ρ}

/-- The references of an index with one place for a key. -/
def single (m : OrderedMap κ Nat) (k : κ) (i : Nat) : Prop := m.get? k = some i

/-- The references of an index with a list of places for a key. -/
def several (m : OrderedMap κ (List Nat)) (k : κ) (i : Nat) : Prop := i ∈ (m.get? k).getD []

theorem sound_single_empty : Sound offers rows (single ∅) := nofun

theorem sound_several_empty : Sound offers rows (several ∅) := nofun

theorem Sound.set {m : OrderedMap κ Nat} (h : Sound offers rows (single m))
    (hrow : rows[i]? = some row) (hoffers : offers row k) :
    Sound offers rows (single (m.set k i)) := by
  intro k' j hj
  rw [single, OrderedMap.get?_set] at hj
  split at hj
  · next hk =>
    cases hk
    cases hj
    exact ⟨row, hrow, hoffers⟩
  · exact h k' j hj

theorem Sound.push {m : OrderedMap κ (List Nat)} (h : Sound offers rows (several m))
    (hrow : rows[i]? = some row) (hoffers : offers row k) :
    Sound offers rows (several (m.set k ((m.get? k).getD [] ++ [i]))) := by
  intro k' j hj
  rw [several, OrderedMap.get?_set] at hj
  split at hj
  · next hk =>
    cases hk
    obtain hj | hj := List.mem_append.mp hj
    · exact h k j hj
    · cases List.mem_singleton.mp hj
      exact ⟨row, hrow, hoffers⟩
  · exact h k' j hj

end KirkForge.References
