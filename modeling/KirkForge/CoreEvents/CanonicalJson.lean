import KirkForge.Theory.JsValue
import Mathlib.Data.List.Sort

/-!
# Canonical JSON

`canonicalJson` (`core-events/src/audit-chain-hash.ts`), the text by which the metadata of an audit
event enters its hash, against the JSON in which the event is stored. The two treat differently what
JSON does not have: the canonical text has an entry for a member that is dropped, an empty one for a
function in an array, and takes a Date for an object without members.
-/

namespace KirkForge

open Delimited JsValue

def maxDepthText : List Char := "\"<max-depth>\"".toList

/-- The text of a value, or of the mark that stands for it below the deepest level. -/
def limited (depth : Nat) (text : Option (List Char)) : Option (List Char) :=
  if depth > 32 then some maxDepthText else text

/-- `JSON.stringify(x)` for a number. -/
def numberText : JsNumber → List Char
  | .finite q => JsNumber.finiteChars q
  | _ => "null".toList

/-- One member of an object, from its key and the text of its value. -/
def memberText (entry : String × List Char) : List Char := quote entry.1 ++ ':' :: entry.2

def keyLe (a b : String × List Char) : Prop := Text.le a.1 b.1 = true

instance (a b : String × List Char) : Decidable (keyLe a b) :=
  inferInstanceAs (Decidable (Text.le a.1 b.1 = true))

/-- The members of an object in the order of their keys. -/
def sortKeys (entries : List (String × List Char)) : List (String × List Char) :=
  entries.insertionSort keyLe

def objectText (entries : List (String × List Char)) : List Char :=
  '{' :: commaJoin ((sortKeys entries).map memberText) ++ ['}']

def arrayText (elements : List (List Char)) : List Char := '[' :: commaJoin elements ++ [']']

mutual
/-- The canonical text of a value, or `none` for `undefined`. -/
def canonicalJson : JsValue → Nat → Option (List Char)
  | .undefined, depth | .null, depth => limited depth (some "null".toList)
  | .bool b, depth => limited depth (some (if b then "true" else "false").toList)
  | .number x, depth => limited depth (some (numberText x))
  | .string s, depth => limited depth (some (quote s))
  | .function, depth => limited depth none
  | .array elements, depth => limited depth (some (arrayText (elementTexts elements (depth + 1))))
  | .object members, depth | .custom members _, depth =>
    limited depth (some (objectText (memberTexts members (depth + 1))))

/-- The texts that `join` puts together: a hole and `undefined` give the empty one. -/
def elementTexts : JsElements → Nat → List (List Char)
  | .nil, _ => []
  | .hole rest, depth => [] :: elementTexts rest depth
  | .cons v rest, depth => (canonicalJson v depth).getD [] :: elementTexts rest depth

/-- The keys with the texts of the values, `undefined` spelled out. -/
def memberTexts : JsMembers → Nat → List (String × List Char)
  | .nil, _ => []
  | .cons k v rest, depth =>
    (k, (canonicalJson v depth).getD "undefined".toList) :: memberTexts rest depth
end

/-! ### The texts are balanced -/

theorem limited_balanced {depth : Nat} {text : Option (List Char)}
    (h : ∀ t, text = some t → Balanced t) : ∀ t, limited depth text = some t → Balanced t := by
  intro t ht
  rw [limited] at ht
  split at ht
  · rw [← Option.some.inj ht]
    exact balanced_quote "<max-depth>"
  · exact h t ht

theorem numberText_balanced (x : JsNumber) : Balanced (numberText x) := by
  cases x with
  | finite q =>
    have hplain : plain JsNumber.numberChars = true := by decide
    exact balanced_of_plain (plain_iff.mpr fun c hc =>
      plain_iff.mp hplain c (JsNumber.finiteChars_subset q c hc))
  | _ => exact balanced_of_plain (by decide)

theorem memberText_balanced {entry : String × List Char} (h : Balanced entry.2) :
    Balanced (memberText entry) := by
  have hcolon : Balanced [':'] := balanced_of_plain (by decide)
  have := (balanced_quote entry.1).append (hcolon.append h)
  exact this

theorem sorted_balanced {entries : List (String × List Char)} (h : ∀ e ∈ entries, Balanced e.2) :
    ∀ t ∈ (sortKeys entries).map memberText, Balanced t := by
  intro t ht
  obtain ⟨e, he, rfl⟩ := List.mem_map.mp ht
  exact memberText_balanced (h e ((List.mem_insertionSort keyLe).mp he))

mutual
theorem canonicalJson_balanced (v : JsValue) (depth : Nat) :
    ∀ t, canonicalJson v depth = some t → Balanced t := by
  cases v with
  | undefined | null =>
    refine limited_balanced fun t ht => ?_
    rw [← Option.some.inj ht]
    exact balanced_of_plain (by decide)
  | bool b =>
    refine limited_balanced fun t ht => ?_
    rw [← Option.some.inj ht]
    cases b <;> exact balanced_of_plain (by decide)
  | number x =>
    refine limited_balanced fun t ht => ?_
    rw [← Option.some.inj ht]
    exact numberText_balanced x
  | string s =>
    refine limited_balanced fun t ht => ?_
    rw [← Option.some.inj ht]
    exact balanced_quote s
  | function => exact limited_balanced nofun
  | array elements =>
    refine limited_balanced fun t ht => ?_
    rw [← Option.some.inj ht]
    exact balanced_enclosed (.inl rfl) (.inl rfl) (elementTexts_balanced elements (depth + 1))
  | object members | custom members json =>
    refine limited_balanced fun t ht => ?_
    rw [← Option.some.inj ht]
    exact balanced_enclosed (.inr rfl) (.inr rfl)
      (sorted_balanced (memberTexts_balanced members (depth + 1)))

theorem elementTexts_balanced (elements : JsElements) (depth : Nat) :
    ∀ t ∈ elementTexts elements depth, Balanced t := by
  cases elements with
  | nil => exact List.forall_mem_nil _
  | hole rest => exact List.forall_mem_cons.mpr ⟨.nil, elementTexts_balanced rest depth⟩
  | cons v rest =>
    refine List.forall_mem_cons.mpr ⟨?_, elementTexts_balanced rest depth⟩
    cases hv : canonicalJson v depth with
    | none => exact .nil
    | some t => exact canonicalJson_balanced v depth t hv

theorem memberTexts_balanced (members : JsMembers) (depth : Nat) :
    ∀ e ∈ memberTexts members depth, Balanced e.2 := by
  cases members with
  | nil => exact List.forall_mem_nil _
  | cons k v rest =>
    refine List.forall_mem_cons.mpr ⟨?_, memberTexts_balanced rest depth⟩
    cases hv : canonicalJson v depth with
    | none =>
      have hplain : plain "undefined".toList = true := by decide
      exact balanced_of_plain hplain
    | some t => exact canonicalJson_balanced v depth t hv
end

/-! ### What a text determines -/

theorem arrayText_inj {ts us : List (List Char)} (hlen : ts.length = us.length)
    (hts : ∀ t ∈ ts, Balanced t) (hus : ∀ u ∈ us, Balanced u) (h : arrayText ts = arrayText us) :
    ts = us := by
  have hjoin : commaJoin ts = commaJoin us := by
    simpa [arrayText] using h
  cases ts with
  | nil => exact (List.length_eq_zero_iff.mp hlen.symm).symm
  | cons t ts =>
    have hne : us ≠ [] := by
      rintro rfl
      exact absurd hlen (Nat.succ_ne_zero _)
    exact commaJoin_inj (List.cons_ne_nil t ts) hne hts hus hjoin

theorem commaJoin_ne_nil {t : List Char} (ht : t ≠ []) (ts : List (List Char)) :
    commaJoin (t :: ts) ≠ [] := by
  cases ts with
  | nil => simpa [commaJoin] using ht
  | cons u ts => simp [commaJoin_cons_cons]

theorem memberText_ne_nil (e : String × List Char) : memberText e ≠ [] := by
  simp [memberText, quote]

/-- Two objects with one text have equally many members, in the same order of texts. -/
theorem sorted_inj {es fs : List (String × List Char)} (hes : ∀ e ∈ es, Balanced e.2)
    (hfs : ∀ f ∈ fs, Balanced f.2) (h : objectText es = objectText fs) :
    (sortKeys es).map memberText = (sortKeys fs).map memberText := by
  have hjoin : commaJoin ((sortKeys es).map memberText) =
      commaJoin ((sortKeys fs).map memberText) := by
    simpa [objectText] using h
  cases hse : sortKeys es with
  | nil =>
    cases hsf : sortKeys fs with
    | nil => rfl
    | cons f rest =>
      rw [hse, hsf] at hjoin
      exact absurd hjoin.symm (commaJoin_ne_nil (memberText_ne_nil f) _)
  | cons e rest =>
    cases hsf : sortKeys fs with
    | nil =>
      rw [hse, hsf] at hjoin
      exact absurd hjoin (commaJoin_ne_nil (memberText_ne_nil e) _)
    | cons f rest' =>
      rw [← hse, ← hsf]
      exact commaJoin_inj (by simp [hse]) (by simp [hsf]) (sorted_balanced hes)
        (sorted_balanced hfs) hjoin

/-- With the same keys, the same text means the same members. -/
theorem objectText_inj {es fs : List (String × List Char)} (hes : ∀ e ∈ es, Balanced e.2)
    (hfs : ∀ f ∈ fs, Balanced f.2) (hkeys : es.map Prod.fst = fs.map Prod.fst)
    (h : objectText es = objectText fs) : es = fs := by
  have hlen : es.length = fs.length := by simpa using congrArg List.length hkeys
  -- the members of both objects side by side, sorted by their common key
  have hfst : (es.zip fs).map Prod.fst = es := List.map_fst_zip hlen.le
  have hsnd : (es.zip fs).map Prod.snd = fs := List.map_snd_zip hlen.ge
  have hkey : ∀ z ∈ es.zip fs, z.1.1 = z.2.1 := by
    have hzip : (es.zip fs).map (Prod.fst ∘ Prod.fst) = (es.zip fs).map (Prod.fst ∘ Prod.snd) := by
      rw [← List.map_map, ← List.map_map, hfst, hsnd, hkeys]
    exact List.map_inj_left.mp hzip
  let sorted := (es.zip fs).insertionSort fun a b => keyLe a.1 b.1
  have hes' : sorted.map Prod.fst = sortKeys es := by
    rw [List.map_insertionSort _ keyLe _ _ fun a _ b _ => Iff.rfl, hfst]
    rfl
  have hfs' : sorted.map Prod.snd = sortKeys fs := by
    rw [List.map_insertionSort _ keyLe _ _ fun a ha b hb => by
      rw [keyLe, keyLe, hkey a ha, hkey b hb], hsnd]
    rfl
  have hsorted := sorted_inj hes hfs h
  rw [← hes', ← hfs', List.map_map, List.map_map] at hsorted
  have hpair : ∀ z ∈ es.zip fs, z.1 = z.2 := by
    intro z hz
    have htext := List.map_inj_left.mp hsorted z ((List.mem_insertionSort _).mpr hz)
    simp only [Function.comp_apply, memberText, hkey z hz, List.append_cancel_left_eq,
      List.cons.injEq, true_and] at htext
    exact Prod.ext (hkey z hz) htext
  calc es = (es.zip fs).map Prod.fst := hfst.symm
    _ = (es.zip fs).map Prod.snd := List.map_congr_left hpair
    _ = fs := hsnd

/-! ### Which values keep their text -/

mutual
/-- What `JSON.stringify` writes for the value, printed at `depth`, has the value's own text. -/
def SurvivesJson : JsValue → Nat → Prop
  | .undefined, _ | .null, _ | .bool _, _ | .number _, _ | .string _, _ => True
  | .function, depth => 32 < depth
  | .array elements, depth => 32 < depth ∨ ElementsSurvive elements (depth + 1)
  | .object members, depth => 32 < depth ∨ MembersSurvive members (depth + 1)
  | .custom members json, depth =>
    32 < depth ∨
      canonicalJson (.object members) depth = canonicalJson (ofJson (json.getD .null)) depth

/-- There are no holes, and every element keeps its text. -/
def ElementsSurvive : JsElements → Nat → Prop
  | .nil, _ => True
  | .hole _, _ => False
  | .cons v rest, depth => SurvivesJson v depth ∧ ElementsSurvive rest depth

/-- No member is dropped, and every one keeps its text. -/
def MembersSurvive : JsMembers → Nat → Prop
  | .nil, _ => True
  | .cons _ v rest, depth => toJson v ≠ none ∧ SurvivesJson v depth ∧ MembersSurvive rest depth
end

/-- The value that stands in the place of `v` after a round through JSON, inside an array. -/
def throughJson (v : JsValue) : JsValue := ofJson ((toJson v).getD .null)

theorem limited_of_lt {depth : Nat} (h : 32 < depth) (text : Option (List Char)) :
    limited depth text = some maxDepthText := if_pos h

theorem limited_of_not_lt {depth : Nat} (h : ¬32 < depth) (text : Option (List Char)) :
    limited depth text = text := if_neg h

/-- Below the deepest level every value has the same text. -/
theorem canonicalJson_of_lt {depth : Nat} (h : 32 < depth) (v : JsValue) :
    canonicalJson v depth = some maxDepthText := by
  cases v <;> exact limited_of_lt h _

/-- Only a function has no text, and none is written. -/
theorem exists_canonicalJson {v : JsValue} (h : toJson v ≠ none) (depth : Nat) :
    ∃ t, canonicalJson v depth = some t := by
  by_cases hd : 32 < depth
  · exact ⟨_, canonicalJson_of_lt hd v⟩
  · cases v with
    | function => exact absurd rfl h
    | _ => exact ⟨_, limited_of_not_lt hd _⟩

theorem ofJson_toJson_ne_none (j : Json) : toJson (ofJson j) ≠ none := by
  rw [toJson_ofJson]
  exact nofun

theorem length_elementTexts_ofItems : ∀ (elements : JsElements) (depth : Nat),
    (elementTexts (ofItems (elementsToJson elements)) depth).length =
      (elementTexts elements depth).length
  | .nil, _ => rfl
  | .hole rest, depth => congrArg Nat.succ (length_elementTexts_ofItems rest depth)
  | .cons _ rest, depth => congrArg Nat.succ (length_elementTexts_ofItems rest depth)

/-- Storing an object drops members and keeps the order of the others. -/
theorem keys_ofFields_sublist (members : JsMembers) (depth : Nat) :
    ((memberTexts (ofFields (membersToJson members)) depth).map Prod.fst).Sublist
      ((memberTexts members depth).map Prod.fst) := by
  cases members with
  | nil => exact List.Sublist.refl _
  | cons k v rest =>
    rw [membersToJson]
    split
    · exact (keys_ofFields_sublist rest depth).cons k
    · exact (keys_ofFields_sublist rest depth).cons_cons k

/-- An object has the text of its stored form only if all its members have. -/
theorem objectText_ofFields_iff (members : JsMembers) (depth : Nat) :
    objectText (memberTexts (ofFields (membersToJson members)) depth) =
        objectText (memberTexts members depth) ↔
      memberTexts (ofFields (membersToJson members)) depth = memberTexts members depth := by
  refine ⟨fun h => ?_, congrArg objectText⟩
  have hown := memberTexts_balanced members depth
  have hstored := memberTexts_balanced (ofFields (membersToJson members)) depth
  have hlen := congrArg List.length (sorted_inj hstored hown h)
  simp only [List.length_map, sortKeys, List.length_insertionSort] at hlen
  refine objectText_inj hstored hown ?_ h
  exact (keys_ofFields_sublist members depth).eq_of_length (by simpa using hlen)

theorem arrayText_ofItems_iff (elements : JsElements) (depth : Nat) :
    arrayText (elementTexts (ofItems (elementsToJson elements)) depth) =
        arrayText (elementTexts elements depth) ↔
      elementTexts (ofItems (elementsToJson elements)) depth = elementTexts elements depth :=
  ⟨arrayText_inj (length_elementTexts_ofItems elements depth) (elementTexts_balanced _ depth)
    (elementTexts_balanced elements depth), congrArg arrayText⟩

mutual
/-- A value has the text of its stored form exactly if it survives. -/
theorem throughJson_text_iff (v : JsValue) (depth : Nat) :
    (canonicalJson (throughJson v) depth).getD [] = (canonicalJson v depth).getD [] ↔
      SurvivesJson v depth := by
  by_cases hd : 32 < depth
  · rw [canonicalJson_of_lt hd, canonicalJson_of_lt hd]
    cases v <;> simp [SurvivesJson, hd]
  cases v with
  | undefined | null | bool b | string s => exact iff_of_true rfl trivial
  | number x => cases x <;> exact iff_of_true rfl trivial
  | function =>
    refine iff_of_false ?_ hd
    have hnull : canonicalJson (throughJson .function) depth = some "null".toList :=
      limited_of_not_lt hd _
    have hnone : canonicalJson .function depth = none := limited_of_not_lt hd _
    rw [hnull, hnone]
    decide
  | array elements =>
    have hown : canonicalJson (.array elements) depth =
        some (arrayText (elementTexts elements (depth + 1))) := limited_of_not_lt hd _
    have hstored : canonicalJson (throughJson (.array elements)) depth =
        some (arrayText (elementTexts (ofItems (elementsToJson elements)) (depth + 1))) :=
      limited_of_not_lt hd _
    rw [hown, hstored, Option.getD_some, Option.getD_some, arrayText_ofItems_iff,
      elements_text_iff elements (depth + 1), SurvivesJson, or_iff_right hd]
  | object members =>
    have hown : canonicalJson (.object members) depth =
        some (objectText (memberTexts members (depth + 1))) := limited_of_not_lt hd _
    have hstored : canonicalJson (throughJson (.object members)) depth =
        some (objectText (memberTexts (ofFields (membersToJson members)) (depth + 1))) :=
      limited_of_not_lt hd _
    rw [hown, hstored, Option.getD_some, Option.getD_some, objectText_ofFields_iff,
      members_text_iff members (depth + 1), SurvivesJson, or_iff_right hd]
  | custom members json =>
    have hthrough : throughJson (.custom members json) = ofJson (json.getD .null) := rfl
    have hown : canonicalJson (.custom members json) depth = canonicalJson (.object members) depth :=
      rfl
    obtain ⟨t, ht⟩ := exists_canonicalJson (ofJson_toJson_ne_none (json.getD .null)) depth
    obtain ⟨u, hu⟩ := exists_canonicalJson (v := .object members) nofun depth
    rw [SurvivesJson, or_iff_right hd, hthrough, hown, ht, hu, Option.getD_some, Option.getD_some,
      Option.some.injEq, eq_comm]

theorem elements_text_iff (elements : JsElements) (depth : Nat) :
    elementTexts (ofItems (elementsToJson elements)) depth = elementTexts elements depth ↔
      ElementsSurvive elements depth := by
  cases elements with
  | nil => exact iff_of_true rfl trivial
  | hole rest =>
    refine iff_of_false (fun h => ?_) id
    have hhead := (List.cons.inj h).1
    by_cases hd : 32 < depth
    · rw [canonicalJson_of_lt hd] at hhead
      exact absurd hhead (by decide)
    · have hnull : canonicalJson (ofJson .null) depth = some "null".toList :=
        limited_of_not_lt hd _
      rw [hnull] at hhead
      exact absurd hhead (by decide)
  | cons v rest =>
    have hv := throughJson_text_iff v depth
    have hrest := elements_text_iff rest depth
    rw [ElementsSurvive, ← hv, ← hrest, throughJson, elementsToJson, ofItems, elementTexts,
      elementTexts, List.cons.injEq]

theorem members_text_iff (members : JsMembers) (depth : Nat) :
    memberTexts (ofFields (membersToJson members)) depth = memberTexts members depth ↔
      MembersSurvive members depth := by
  cases members with
  | nil => exact iff_of_true rfl trivial
  | cons k v rest =>
    rw [membersToJson]
    split
    · next hnone =>
      refine iff_of_false (fun h => ?_) fun h => h.1 hnone
      have hkeys := (keys_ofFields_sublist rest depth).length_le
      have hlen := congrArg List.length h
      simp only [List.length_map, memberTexts, List.length_cons] at hkeys hlen
      omega
    · next j hj =>
      have hne : toJson v ≠ none := by simp [hj]
      have hv := throughJson_text_iff v depth
      obtain ⟨t, ht⟩ := exists_canonicalJson hne depth
      obtain ⟨u, hu⟩ := exists_canonicalJson (ofJson_toJson_ne_none j) depth
      rw [throughJson, hj, Option.getD_some, ht, hu, Option.getD_some, Option.getD_some] at hv
      rw [MembersSurvive, ← members_text_iff rest depth, ← hv, ofFields, memberTexts, memberTexts, ht,
        hu, Option.getD_some, Option.getD_some, List.cons.injEq, Prod.mk.injEq]
      simp [hne]
end

end KirkForge
