import KirkForge.Theory.JsonText

/-!
# Objects with members set

The spread `{...members, key: value}`: a member that is there keeps its place and takes the new
value, another one is added at the end. What JSON keeps of it follows from what it keeps of the
members and of the value.
-/

namespace KirkForge

open JsValue

namespace JsMembers

/-- `{...members, [key]: value}` -/
def set (key : String) (value : JsValue) : JsMembers → JsMembers
  | nil => .cons key value .nil
  | cons k v rest => if k = key then .cons key value rest else .cons k v (rest.set key value)

def keys : JsMembers → List String
  | nil => []
  | cons k _ rest => k :: rest.keys

variable {key : String} {value : JsValue} {j : Json} {members : JsMembers}

theorem keys_set (key : String) (value : JsValue) (members : JsMembers) :
    (members.set key value).keys =
      if key ∈ members.keys then members.keys else members.keys ++ [key] := by
  fun_induction set key value members with
  | case1 => simp [keys]
  | case2 v rest => simp [keys]
  | case3 k v rest hk ih =>
    have hk' : ¬key = k := fun h => hk h.symm
    simp only [keys, ih, List.mem_cons, hk', false_or]
    split <;> rfl

theorem nodup_keys_set (h : members.keys.Nodup) : (members.set key value).keys.Nodup := by
  rw [keys_set]
  split
  · exact h
  · next hk =>
    exact List.nodup_append.mpr ⟨h, List.nodup_singleton key, fun a ha b hb => by
      rw [List.mem_singleton.mp hb]; rintro rfl; exact hk ha⟩

/-! ### What JSON keeps -/

/-- JSON leaves members out and adds none. -/
theorem keys_toJson_sublist (members : JsMembers) :
    ((membersToJson members).map Prod.fst).Sublist members.keys := by
  cases members with
  | nil => exact List.Sublist.refl _
  | cons k v rest =>
    have ih := keys_toJson_sublist rest
    rw [membersToJson]
    split
    · exact ih.cons k
    · exact ih.cons_cons k

/-- The member that is set has its JSON, and the others keep theirs. -/
theorem lookup_toJson_set (h : toJson value = some j) (members : JsMembers) (k : String) :
    OrderedMap.lookup k (membersToJson (members.set key value)) =
      if k = key then some j else OrderedMap.lookup k (membersToJson members) := by
  fun_induction set key value members with
  | case1 => simp [membersToJson, h, OrderedMap.lookup, eq_comm]
  | case2 v rest =>
    simp only [membersToJson, h, OrderedMap.lookup]
    by_cases hk : key = k
    · simp [hk]
    · rw [if_neg hk, if_neg (Ne.symm hk)]
      split
      · rfl
      · rw [OrderedMap.lookup, if_neg hk]
  | case3 k' v rest hk' ih =>
    simp only [membersToJson]
    split
    · exact ih
    · rw [OrderedMap.lookup, OrderedMap.lookup, ih]
      by_cases hk : k' = k
      · rw [if_pos hk, if_pos hk, if_neg (hk ▸ hk')]
      · rw [if_neg hk, if_neg hk]

/-- A predicate on the keys that does not hold of the one that is set does not see the change. -/
theorem filter_toJson_set {p : String → Bool} (hp : p key = false) (h : toJson value = some j)
    (members : JsMembers) :
    (membersToJson (members.set key value)).filter (fun e => p e.1) =
      (membersToJson members).filter fun e => p e.1 := by
  fun_induction set key value members with
  | case1 => simp [membersToJson, h, hp]
  | case2 v rest =>
    simp only [membersToJson, h]
    split <;> simp [hp]
  | case3 k v rest hk ih =>
    simp only [membersToJson]
    split
    · exact ih
    · simp [List.filter_cons, ih]

theorem fieldsWellFormed_set (h : toJson value = some j) (hj : j.WellFormed)
    (hmembers : Json.FieldsWellFormed (membersToJson members)) :
    Json.FieldsWellFormed (membersToJson (members.set key value)) := by
  fun_induction set key value members with
  | case1 => simp [membersToJson, h, Json.FieldsWellFormed, hj]
  | case2 v rest =>
    rw [membersToJson] at hmembers
    simp only [membersToJson, h]
    split at hmembers
    · exact ⟨hj, hmembers⟩
    · exact ⟨hj, hmembers.2⟩
  | case3 k v rest hk ih =>
    rw [membersToJson] at hmembers ⊢
    split at hmembers
    · exact ih hmembers
    · exact ⟨hmembers.1, ih hmembers.2⟩

theorem get_eq_undefined (h : key ∉ members.keys) : members.get key = .undefined := by
  fun_induction JsMembers.keys members with
  | case1 => rfl
  | case2 k v rest ih =>
    rw [List.mem_cons, not_or] at h
    rw [get, if_neg (Ne.symm h.1), ih h.2]

/-- What is read under a key after the members have been JSON. -/
theorem get_ofFields_toJson (h : members.keys.Nodup) :
    (ofFields (membersToJson members)).get key =
      ((toJson (members.get key)).map ofJson).getD .undefined := by
  fun_induction JsMembers.keys members with
  | case1 => rfl
  | case2 k v rest ih =>
    obtain ⟨hk, hrest⟩ := List.nodup_cons.mp h
    rw [membersToJson, get]
    by_cases heq : k = key
    · subst heq
      rw [if_pos rfl]
      split
      · next hnone => rw [ih hrest, get_eq_undefined hk, hnone]; rfl
      · next j hj => rw [ofFields, get, if_pos rfl, hj]; rfl
    · rw [if_neg heq, ← ih hrest]
      split
      · rfl
      · rw [ofFields, get, if_neg heq]

/-- The keys are distinct, and JSON gives the values back that it keeps. -/
def WellFormed (members : JsMembers) : Prop :=
  members.keys.Nodup ∧ Json.FieldsWellFormed (membersToJson members)

theorem WellFormed.set (hmembers : members.WellFormed) (h : toJson value = some j)
    (hj : j.WellFormed) : (members.set key value).WellFormed :=
  ⟨nodup_keys_set hmembers.1, fieldsWellFormed_set h hj hmembers.2⟩

theorem WellFormed.json (h : members.WellFormed) :
    (Json.obj (membersToJson members)).WellFormed :=
  ⟨h.1.sublist (keys_toJson_sublist members), h.2⟩

end JsMembers

end KirkForge
