import KirkForge.Theory.JsValue
import KirkForge.Theory.NumberText

/-!
# Reading back what was written as JSON

`JSON.parse` gives back every value that `JSON.stringify` writes (`parse_stringify`), provided that
its numbers are decimal fractions and no object has two members with one key.
-/

namespace KirkForge.Json

/-! ### Strings -/

/-- What stands between the quotes is read as the codes of the characters. -/
theorem units_quoteChar (c : Char) (cs : List Char) :
    units (JsValue.quoteChar c ++ cs) = (units cs).map fun r => (c.toNat :: r.1, r.2) := by
  have hunits (d : Char) (hd : d ≠ 'u') {n : Nat} (hn : escape d = some n) :
      units ('\\' :: d :: cs) = (units cs).map fun r => (n :: r.1, r.2) := by
    rw [units.eq_def]
    dsimp only
    rw [if_neg (by decide), if_pos rfl]
    split
    · next h => exact absurd (List.cons.inj h).1 hd
    · next h =>
      obtain ⟨rfl, rfl⟩ := List.cons.inj h
      rw [hn, Option.bind_some]
    · next h => exact absurd h (List.cons_ne_nil _ _)
  have hchar (n : Nat) (hn : c.toNat = n) : c = Char.ofNat n := by rw [← hn, Char.ofNat_toNat]
  unfold JsValue.quoteChar
  split
  · next h =>
    rcases h with rfl | rfl
    · exact hunits '"' (by decide) rfl
    · exact hunits '\\' (by decide) rfl
  next hspecial =>
  rw [not_or] at hspecial
  split
  · next h => rw [h]; exact hunits 'b' (by decide) rfl
  split
  · next h => rw [h]; exact hunits 't' (by decide) rfl
  split
  · next h => rw [h]; exact hunits 'n' (by decide) rfl
  split
  · next h => rw [h]; exact hunits 'f' (by decide) rfl
  split
  · next h => rw [h]; exact hunits 'r' (by decide) rfl
  split
  · next h =>
    have hhex : ∀ n < 0x20, hexDigits ['0', '0', Nat.digitChar (n / 16), Nat.digitChar (n % 16)] =
        some n := by
      decide
    have h := hhex c.toNat h
    simp [units, h]
  · next h =>
    rw [List.singleton_append, units.eq_def]
    simp [hspecial, h]

theorem units_quote (cs rest : List Char) :
    units (cs.flatMap JsValue.quoteChar ++ '"' :: rest) = some (cs.map Char.toNat, rest) := by
  induction cs with
  | nil =>
    rw [List.flatMap_nil, List.nil_append, units.eq_def]
    rfl
  | cons c cs ih => simp [List.append_assoc, units_quoteChar, ih]

/-- No character is a surrogate. -/
theorem isHigh_isLow_toNat (c : Char) : isHigh c.toNat = false ∧ isLow c.toNat = false := by
  have hvalid := c.valid
  simp only [isHigh, isLow, Bool.and_eq_false_iff, decide_eq_false_iff_not]
  change c.toNat < 0xD800 ∨ 0xDFFF < c.toNat ∧ c.toNat < 0x110000 at hvalid
  omega

theorem chars_map_toNat (cs : List Char) : chars (cs.map Char.toNat) = cs := by
  induction cs with
  | nil => rfl
  | cons c cs ih =>
    obtain ⟨hhigh, hlow⟩ := isHigh_isLow_toNat c
    cases cs with
    | nil => simp [chars, hhigh, hlow]
    | cons d cs =>
      rw [List.map_cons] at ih
      simp [chars, hhigh, hlow, ih]

/-- A string literal is read back. -/
theorem string_quote (s : String) (rest : List Char) :
    string (s.toList.flatMap JsValue.quoteChar ++ '"' :: rest) = some (s, rest) := by
  rw [string, units_quote, Option.map_some, chars_map_toNat, String.ofList_toList]

/-! ### Values -/

mutual
/-- All numbers are decimal fractions, and the keys of every object are distinct. -/
def WellFormed : Json → Prop
  | num q => JsNumber.IsDecimal q
  | arr items => ItemsWellFormed items
  | obj fields => (fields.map Prod.fst).Nodup ∧ FieldsWellFormed fields
  | null | bool _ | str _ => True

def ItemsWellFormed : List Json → Prop
  | [] => True
  | j :: items => WellFormed j ∧ ItemsWellFormed items

def FieldsWellFormed : List (String × Json) → Prop
  | [] => True
  | (_, j) :: fields => WellFormed j ∧ FieldsWellFormed fields
end

theorem exists_head_finiteChars {q : ℚ} (hq : JsNumber.IsDecimal q) :
    ∃ c cs, JsNumber.finiteChars q = c :: cs ∧ c ∈ JsNumber.numberChars := by
  cases hchars : JsNumber.finiteChars q with
  | nil =>
    have hnone := number_finiteChars hq stops_nil
    rw [hchars] at hnone
    exact nomatch hnone
  | cons c cs =>
    exact ⟨c, cs, rfl, JsNumber.finiteChars_subset q c (by simp [hchars])⟩

theorem value_number {q : ℚ} (hq : JsNumber.IsDecimal q) {rest : List Char} (hrest : Stops rest)
    (fuel : Nat) : value (fuel + 1) (JsNumber.finiteChars q ++ rest) = some (num q, rest) := by
  have hnumber := number_finiteChars hq hrest
  obtain ⟨c, cs, hchars, hc⟩ := exists_head_finiteChars hq
  have hall : JsNumber.numberChars.all
      (fun c => !isSpace c && c ∉ ['{', '[', '"', 't', 'f', 'n']) = true := by
    decide
  have hhead := List.all_eq_true.mp hall c hc
  simp only [Bool.and_eq_true, Bool.not_eq_true', decide_eq_true_eq, List.mem_cons,
    List.not_mem_nil, or_false, not_or] at hhead
  obtain ⟨hspace, hbrace, hbracket, hquote, ht, hf, hn⟩ := hhead
  rw [hchars, List.cons_append] at hnumber ⊢
  rw [value, skipSpace, List.dropWhile_cons_of_neg (by simp [hspace])]
  dsimp only
  rw [if_neg hbrace, if_neg hbracket, if_neg hquote, scalar.eq_def]
  split
  · next h => exact absurd (List.cons.inj h).1 ht
  · next h => exact absurd (List.cons.inj h).1 hf
  · next h => exact absurd (List.cons.inj h).1 hn
  · rw [hnumber, Option.map_some]

theorem token_self {c : Char} (hc : isSpace c = false) (cs : List Char) :
    token c (c :: cs) = some cs := by
  simp [token, skipSpace, hc]

theorem token_ne {c d : Char} (hd : isSpace d = false) (h : d ≠ c) (cs : List Char) :
    token c (d :: cs) = none := by
  simp [token, skipSpace, hd, h]

/-- Nothing that is written begins with a closing bracket. -/
theorem token_stringify {j : Json} (h : WellFormed j) (rest : List Char) :
    token ']' (JsValue.stringify j ++ rest) = none := by
  cases j with
  | num q =>
    obtain ⟨c, cs, hchars, hc⟩ := exists_head_finiteChars h
    have hall : JsNumber.numberChars.all (fun c => !isSpace c && c ≠ ']') = true := by
      decide
    have hhead := List.all_eq_true.mp hall c hc
    simp only [Bool.and_eq_true, Bool.not_eq_true', decide_eq_true_eq] at hhead
    rw [JsValue.stringify, JsNumber.text, String.toList_ofList, hchars]
    exact token_ne hhead.1 hhead.2 _
  | null | str s | arr items | obj fields => exact token_ne (by decide) (by decide) _
  | bool b => cases b <;> exact token_ne (by decide) (by decide) _

theorem stops_of {c : Char} (h : c.isDigit = false ∧ c ≠ '.' ∧ c ≠ 'e' ∧ c ≠ 'E')
    (cs : List Char) : Stops (c :: cs) := fun _ hd => Option.some.inj hd ▸ h

theorem value_literal {fuel : Nat} {c : Char} {cs : List Char} (hspace : isSpace c = false)
    (hbrace : c ≠ '{') (hbracket : c ≠ '[') (hquote : c ≠ '"') :
    value (fuel + 1) (c :: cs) = scalar (c :: cs) := by
  rw [value, skipSpace, List.dropWhile_cons_of_neg (by simp [hspace])]
  simp only [if_neg hbrace, if_neg hbracket, if_neg hquote]

theorem quote_append (s : String) (rest : List Char) :
    JsValue.quote s ++ rest = '"' :: (s.toList.flatMap JsValue.quoteChar ++ '"' :: rest) := by
  simp [JsValue.quote]

theorem value_quote (s : String) (rest : List Char) (fuel : Nat) :
    value (fuel + 1) (JsValue.quote s ++ rest) = some (str s, rest) := by
  rw [quote_append, value, skipSpace, List.dropWhile_cons_of_neg (by decide)]
  simp only [string_quote]
  rfl

theorem value_bracket (cs : List Char) (fuel : Nat) : value (fuel + 1) ('[' :: cs) =
    match token ']' cs with
    | some rest => some (arr [], rest)
    | none => elements fuel [] cs := by
  rw [value, skipSpace, List.dropWhile_cons_of_neg (by decide)]
  rfl

theorem value_brace (cs : List Char) (fuel : Nat) : value (fuel + 1) ('{' :: cs) =
    match token '}' cs with
    | some rest => some (obj [], rest)
    | none => members fuel [] cs := by
  rw [value, skipSpace, List.dropWhile_cons_of_neg (by decide)]
  rfl

theorem elements_cons {fuel : Nat} {done : List Json} {j : Json} {cs rest : List Char}
    (h : value fuel cs = some (j, rest)) : elements (fuel + 1) done cs =
      match token ',' rest with
      | some cs => elements fuel (done ++ [j]) cs
      | none => (token ']' rest).map fun rest => (arr (done ++ [j]), rest) := by
  rw [elements, h]
  rfl

theorem members_cons {fuel : Nat} {done : List (String × Json)} {k : String} {j : Json}
    {cs rest : List Char} (h : value fuel cs = some (j, rest)) :
    members (fuel + 1) done (JsValue.quote k ++ ':' :: cs) =
      match token ',' rest with
      | some cs => members fuel (OrderedMap.insert k j done) cs
      | none => (token '}' rest).map fun rest => (obj (OrderedMap.insert k j done), rest) := by
  rw [members, quote_append, token_self rfl, Option.bind_some, string_quote, Option.bind_some,
    token_self rfl, Option.bind_some, h]
  rfl

theorem insert_of_notMem {k : String} {done : List (String × Json)} (h : k ∉ done.map Prod.fst)
    (j : Json) : OrderedMap.insert k j done = done ++ [(k, j)] := by
  simpa [OrderedMap.insert] using OrderedMap.insert_append h j []

/-- With enough fuel the parser comes to this result. -/
def Settles {α : Type*} (parser : Nat → Option α) (result : α) : Prop :=
  ∃ least, ∀ fuel ≥ least, parser fuel = some result

theorem Settles.of_succ {α : Type*} {parser : Nat → Option α} {result : α}
    (h : ∀ fuel, parser (fuel + 1) = some result) : Settles parser result := by
  refine ⟨1, fun fuel hfuel => ?_⟩
  obtain ⟨fuel, rfl⟩ := Nat.exists_eq_add_of_le' hfuel
  exact h fuel

/-- A parser that calls another one. -/
theorem Settles.call {α β : Type*} {parser : Nat → Option α} {called : Nat → Option β} {a : α} {b : β}
    (hb : Settles called b) (h : ∀ fuel, called fuel = some b → parser (fuel + 1) = some a) :
    Settles parser a := by
  obtain ⟨least, hleast⟩ := hb
  refine ⟨least + 1, fun fuel hfuel => ?_⟩
  obtain ⟨fuel, rfl⟩ := Nat.exists_eq_add_of_le' (Nat.le_of_add_left_le hfuel)
  exact h fuel (hleast fuel (Nat.le_of_succ_le_succ hfuel))

theorem Settles.and {α β : Type*} {parser : Nat → Option α} {other : Nat → Option β} {a : α} {b : β}
    (ha : Settles parser a) (hb : Settles other b) :
    ∃ least, ∀ fuel ≥ least, parser fuel = some a ∧ other fuel = some b := by
  obtain ⟨least, hleast⟩ := ha
  obtain ⟨least', hleast'⟩ := hb
  exact ⟨max least least', fun fuel hfuel => ⟨hleast fuel (Nat.le_trans (Nat.le_max_left ..) hfuel),
    hleast' fuel (Nat.le_trans (Nat.le_max_right ..) hfuel)⟩⟩

/-- A parser that calls two others. -/
theorem Settles.call₂ {α β γ : Type*} {parser : Nat → Option α} {first : Nat → Option β}
    {second : Nat → Option γ} {a : α} {b : β} {c : γ} (hb : Settles first b) (hc : Settles second c)
    (h : ∀ fuel, first fuel = some b → second fuel = some c → parser (fuel + 1) = some a) :
    Settles parser a := by
  obtain ⟨least, hleast⟩ := hb.and hc
  refine ⟨least + 1, fun fuel hfuel => ?_⟩
  obtain ⟨fuel, rfl⟩ := Nat.exists_eq_add_of_le' (Nat.le_of_add_left_le hfuel)
  obtain ⟨hb, hc⟩ := hleast fuel (Nat.le_of_succ_le_succ hfuel)
  exact h fuel hb hc

theorem notMem_commaJoin {c : Char} (hc : c ≠ ',') {texts : List (List Char)}
    (h : ∀ t ∈ texts, c ∉ t) : c ∉ Delimited.commaJoin texts := by
  induction texts with
  | nil => exact List.not_mem_nil
  | cons t texts ih =>
    obtain ⟨ht, htexts⟩ := List.forall_mem_cons.mp h
    cases texts with
    | nil => simpa [Delimited.commaJoin] using ht
    | cons u texts => simp [Delimited.commaJoin_cons_cons, ht, hc, ih htexts]

theorem exists_commaJoin_cons (t : List Char) (texts : List (List Char)) :
    ∃ tail, Delimited.commaJoin (t :: texts) = t ++ tail := by
  cases texts with
  | nil => exact ⟨[], by simp [Delimited.commaJoin]⟩
  | cons u texts => exact ⟨_, Delimited.commaJoin_cons_cons t u texts⟩

mutual
/-- A value is read back from its text. -/
theorem value_stringify (j : Json) (h : WellFormed j) (rest : List Char) (hrest : Stops rest) :
    Settles (value · (JsValue.stringify j ++ rest)) (j, rest) := by
  cases j with
  | null => exact .of_succ fun _ => value_literal rfl (by decide) (by decide) (by decide)
  | bool b =>
    cases b <;> exact .of_succ fun _ => value_literal rfl (by decide) (by decide) (by decide)
  | str s => exact .of_succ (value_quote s rest)
  | num q =>
    rw [JsValue.stringify, JsNumber.text, String.toList_ofList]
    exact .of_succ (value_number h hrest)
  | arr items =>
    have htext : JsValue.stringify (arr items) ++ rest =
        '[' :: (Delimited.commaJoin (JsValue.stringifyItems items) ++ ']' :: rest) := by
      simp [JsValue.stringify]
    rw [htext]
    cases items with
    | nil => exact .of_succ fun _ => value_bracket _ _
    | cons j items =>
      refine (elements_stringify (j :: items) h [] rest (List.cons_ne_nil _ _)).call
        fun fuel hitems => ?_
      obtain ⟨tail, htail⟩ := exists_commaJoin_cons (JsValue.stringify j) (JsValue.stringifyItems items)
      rw [JsValue.stringifyItems, htail, List.append_assoc] at hitems ⊢
      rw [value_bracket, token_stringify h.1]
      exact hitems
  | obj fields =>
    obtain ⟨hkeys, h⟩ := h
    have htext : JsValue.stringify (obj fields) ++ rest =
        '{' :: (Delimited.commaJoin (JsValue.stringifyFields fields) ++ '}' :: rest) := by
      simp [JsValue.stringify]
    rw [htext]
    cases fields with
    | nil => exact .of_succ fun _ => value_brace _ _
    | cons field fields =>
      refine (members_stringify (field :: fields) h [] hkeys rest (List.cons_ne_nil _ _)).call
        fun fuel hfields => ?_
      obtain ⟨k, j⟩ := field
      obtain ⟨tail, htail⟩ := exists_commaJoin_cons (JsValue.quote k ++ ':' :: JsValue.stringify j)
        (JsValue.stringifyFields fields)
      rw [JsValue.stringifyFields, htail, List.append_assoc, List.append_assoc, quote_append]
        at hfields ⊢
      rw [value_brace, token_ne rfl (by decide)]
      exact hfields

/-- The elements that are still to come are read back. -/
theorem elements_stringify (items : List Json) (h : ItemsWellFormed items) (done : List Json)
    (rest : List Char) (hne : items ≠ []) :
    Settles (elements · done
      (Delimited.commaJoin (JsValue.stringifyItems items) ++ ']' :: rest)) (arr (done ++ items), rest) := by
  cases items with
  | nil => exact absurd rfl hne
  | cons j items =>
    cases items with
    | nil =>
      refine (value_stringify j h.1 (']' :: rest) (stops_of (by decide) rest)).call
        fun fuel hvalue => ?_
      have htext : Delimited.commaJoin (JsValue.stringifyItems [j]) = JsValue.stringify j := by
        simp [Delimited.commaJoin, JsValue.stringifyItems]
      rw [htext, elements_cons hvalue, token_ne rfl (by decide), token_self rfl]
      rfl
    | cons j' items =>
      let tail := Delimited.commaJoin (JsValue.stringifyItems (j' :: items)) ++ ']' :: rest
      refine (value_stringify j h.1 (',' :: tail) (stops_of (by decide) _)).call₂
        (elements_stringify (j' :: items) h.2 (done ++ [j]) rest (List.cons_ne_nil _ _))
        fun fuel hvalue hitems => ?_
      have htext : Delimited.commaJoin (JsValue.stringifyItems (j :: j' :: items)) ++ ']' :: rest =
          JsValue.stringify j ++ ',' :: tail := by
        simp [JsValue.stringifyItems, Delimited.commaJoin_cons_cons, tail]
      rw [htext, elements_cons hvalue, token_self rfl]
      dsimp only
      rw [hitems, List.append_assoc, List.singleton_append]

/-- The members that are still to come are read back. -/
theorem members_stringify (fields : List (String × Json)) (h : FieldsWellFormed fields)
    (done : List (String × Json)) (hkeys : ((done ++ fields).map Prod.fst).Nodup) (rest : List Char)
    (hne : fields ≠ []) :
    Settles (members · done
      (Delimited.commaJoin (JsValue.stringifyFields fields) ++ '}' :: rest))
      (obj (done ++ fields), rest) := by
  cases fields with
  | nil => exact absurd rfl hne
  | cons field fields =>
    obtain ⟨k, j⟩ := field
    have hk : k ∉ done.map Prod.fst := by
      rw [List.map_append, List.nodup_append] at hkeys
      exact fun hmem => hkeys.2.2 k hmem k (List.mem_cons_self ..) rfl
    cases fields with
    | nil =>
      refine (value_stringify j h.1 ('}' :: rest) (stops_of (by decide) rest)).call
        fun fuel hvalue => ?_
      have htext : Delimited.commaJoin (JsValue.stringifyFields [(k, j)]) ++ '}' :: rest =
          JsValue.quote k ++ ':' :: (JsValue.stringify j ++ '}' :: rest) := by
        simp [Delimited.commaJoin, JsValue.stringifyFields]
      rw [htext, members_cons hvalue, token_ne rfl (by decide), token_self rfl, insert_of_notMem hk]
      rfl
    | cons field' fields =>
      let tail := Delimited.commaJoin (JsValue.stringifyFields (field' :: fields)) ++ '}' :: rest
      have hdone : done ++ (k, j) :: field' :: fields = done ++ [(k, j)] ++ field' :: fields := by
        simp
      rw [hdone] at hkeys ⊢
      refine (value_stringify j h.1 (',' :: tail) (stops_of (by decide) _)).call₂
        (members_stringify (field' :: fields) h.2 (done ++ [(k, j)]) hkeys rest (List.cons_ne_nil _ _))
        fun fuel hvalue hfields => ?_
      have htext : Delimited.commaJoin (JsValue.stringifyFields ((k, j) :: field' :: fields)) ++
          '}' :: rest = JsValue.quote k ++ ':' :: (JsValue.stringify j ++ ',' :: tail) := by
        obtain ⟨k', j'⟩ := field'
        simp [JsValue.stringifyFields, Delimited.commaJoin_cons_cons, tail]
      rw [htext, members_cons hvalue, token_self rfl, insert_of_notMem hk]
      exact hfields
end

/-- What is written is read back, and white space behind it is skipped. -/
theorem parse_stringify_append {j : Json} (h : WellFormed j) {space : List Char}
    (hspace : skipSpace space = []) (hstops : Stops space) :
    parse (String.ofList (JsValue.stringify j ++ space)) = some j := by
  obtain ⟨least, hleast⟩ := value_stringify j h space hstops
  set text := JsValue.stringify j ++ space
  have hleast (fuel : Nat) (hge : fuel ≥ least) : value fuel text = some (j, space) :=
    hleast fuel hge
  have hfuel : 2 * text.length < max least (2 * text.length + 1) :=
    Nat.lt_of_succ_le (Nat.le_max_right ..)
  rw [parse, String.toList_ofList, ← value_eq_of_lt hfuel, hleast _ (Nat.le_max_left ..)]
  exact if_pos hspace

/-- `JSON.parse(JSON.stringify(v))` is `v`. -/
theorem parse_stringify {j : Json} (h : WellFormed j) :
    parse (String.ofList (JsValue.stringify j)) = some j := by
  have hparse := parse_stringify_append h (show skipSpace [] = [] from rfl) stops_nil
  rwa [List.append_nil] at hparse

theorem quote_inj {s t : String} {l m : List Char}
    (h : JsValue.quote s ++ l = JsValue.quote t ++ m) : s = t ∧ l = m := by
  rw [quote_append, quote_append] at h
  have hstring := congrArg string (List.cons.inj h).2
  rw [string_quote, string_quote] at hstring
  exact Prod.mk.inj (Option.some.inj hstring)

/-! ### One line -/

theorem newline_notMem_quote (s : String) : '\n' ∉ JsValue.quote s := by
  have hchar (c : Char) : '\n' ∉ JsValue.quoteChar c := by
    have hdigit : ∀ d < 16, Nat.digitChar d ≠ '\n' := by decide
    unfold JsValue.quoteChar
    split
    · next h => rcases h with rfl | rfl <;> decide
    · split_ifs with h1 h2 h3 h4 h5 h6
      · decide
      · decide
      · decide
      · decide
      · decide
      · have := hdigit (c.toNat / 16) (by omega)
        have := hdigit (c.toNat % 16) (by omega)
        simp [*, Ne.symm]
      · rw [List.mem_singleton]
        rintro rfl
        exact h3 rfl
  simp [JsValue.quote, hchar]

mutual
/-- The text of a value stands on one line. -/
theorem newline_notMem_stringify (j : Json) : '\n' ∉ JsValue.stringify j := by
  cases j with
  | null => decide
  | bool b => cases b <;> decide
  | str s => exact newline_notMem_quote s
  | num q =>
    rw [JsValue.stringify, JsNumber.text, String.toList_ofList]
    intro h
    have hmem := JsNumber.finiteChars_subset q '\n' h
    exact absurd hmem (by decide)
  | arr items =>
    have hitems := notMem_commaJoin (by decide) (newline_notMem_stringifyItems items)
    simp [JsValue.stringify, hitems]
  | obj fields =>
    have hfields := notMem_commaJoin (by decide) (newline_notMem_stringifyFields fields)
    simp [JsValue.stringify, hfields]

theorem newline_notMem_stringifyItems (items : List Json) :
    ∀ t ∈ JsValue.stringifyItems items, '\n' ∉ t := by
  cases items with
  | nil => exact List.forall_mem_nil _
  | cons j items =>
    exact List.forall_mem_cons.mpr
      ⟨newline_notMem_stringify j, newline_notMem_stringifyItems items⟩

theorem newline_notMem_stringifyFields (fields : List (String × Json)) :
    ∀ t ∈ JsValue.stringifyFields fields, '\n' ∉ t := by
  cases fields with
  | nil => exact List.forall_mem_nil _
  | cons field fields =>
    obtain ⟨k, j⟩ := field
    refine List.forall_mem_cons.mpr ⟨?_, newline_notMem_stringifyFields fields⟩
    simp [newline_notMem_quote k, newline_notMem_stringify j]
end

end KirkForge.Json

/-!
## JSON values with a hole

A place in a JSON value, at any depth, with everything that is around it. The text of the value
around a place does not depend on what is there (`exists_stringify_fill`).
-/

namespace KirkForge.Json

/-- A value with a hole, which is below a property or in an array. -/
inductive Hole
  | here
  | field (before : List (String × Json)) (key : String) (hole : Hole)
      (after : List (String × Json))
  | item (before : List Json) (hole : Hole) (after : List Json)

namespace Hole

def fill (j : Json) : Hole → Json
  | here => j
  | field before key hole after => .obj (before ++ (key, hole.fill j) :: after)
  | item before hole after => .arr (before ++ hole.fill j :: after)

/-- The property whose value is to be filled in. -/
def key? : Hole → Option String
  | here => none
  | field _ key here _ => some key
  | field _ _ hole _ | item _ hole _ => hole.key?

end Hole

theorem exists_commaJoin_append (before after : List (List Char)) : ∃ front back,
    ∀ t, Delimited.commaJoin (before ++ t :: after) = front ++ t ++ back := by
  induction before with
  | nil =>
    cases after with
    | nil => exact ⟨[], [], fun t => by simp [Delimited.commaJoin]⟩
    | cons u after =>
      refine ⟨[], ',' :: Delimited.commaJoin (u :: after), fun t => ?_⟩
      rw [List.nil_append, List.nil_append, Delimited.commaJoin_cons_cons]
  | cons u before ih =>
    obtain ⟨front, back, h⟩ := ih
    refine ⟨u ++ ',' :: front, back, fun t => ?_⟩
    have hcons : Delimited.commaJoin (u :: (before ++ t :: after)) =
        u ++ ',' :: Delimited.commaJoin (before ++ t :: after) := by
      cases before with
      | nil => exact Delimited.commaJoin_cons_cons ..
      | cons u' before => exact Delimited.commaJoin_cons_cons ..
    rw [List.cons_append, hcons, h]
    simp

theorem stringifyItems_append (xs ys : List Json) :
    JsValue.stringifyItems (xs ++ ys) = JsValue.stringifyItems xs ++ JsValue.stringifyItems ys := by
  induction xs with
  | nil => rfl
  | cons x xs ih => simp [JsValue.stringifyItems, ih]

theorem stringifyFields_append (xs ys : List (String × Json)) :
    JsValue.stringifyFields (xs ++ ys) =
      JsValue.stringifyFields xs ++ JsValue.stringifyFields ys := by
  induction xs with
  | nil => rfl
  | cons x xs ih =>
    obtain ⟨k, j⟩ := x
    simp [JsValue.stringifyFields, ih]

/-- What is written around a place. -/
theorem exists_stringify_fill (hole : Hole) : ∃ front back,
    ∀ j, JsValue.stringify (hole.fill j) = front ++ JsValue.stringify j ++ back := by
  induction hole with
  | here => exact ⟨[], [], fun j => by simp [Hole.fill]⟩
  | field before key hole after ih =>
    obtain ⟨front, back, h⟩ := ih
    obtain ⟨front', back', h'⟩ := exists_commaJoin_append (JsValue.stringifyFields before)
      (JsValue.stringifyFields after)
    refine ⟨'\x7b' :: front' ++ JsValue.quote key ++ ':' :: front, back ++ back' ++ ['\x7d'],
      fun j => ?_⟩
    rw [Hole.fill, JsValue.stringify, stringifyFields_append, JsValue.stringifyFields, h', h]
    simp
  | item before hole after ih =>
    obtain ⟨front, back, h⟩ := ih
    obtain ⟨front', back', h'⟩ := exists_commaJoin_append (JsValue.stringifyItems before)
      (JsValue.stringifyItems after)
    refine ⟨'[' :: front' ++ front, back ++ back' ++ [']'], fun j => ?_⟩
    rw [Hole.fill, JsValue.stringify, stringifyItems_append, JsValue.stringifyItems, h', h]
    simp

end KirkForge.Json
