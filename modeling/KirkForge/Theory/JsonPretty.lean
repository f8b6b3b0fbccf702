import KirkForge.Theory.DelimitedEnd
import KirkForge.Theory.JsonText

/-!
# Indented JSON

`JSON.stringify(v, null, 2)`: every element and every member on a line of its own. The text is read
back as the compact one is, and no initial part of the text of an object or array is JSON at all, so
that a file that was not written to its end is never taken for a whole one.
-/

namespace KirkForge.Json

/-- A line end and the indentation of the next line. -/
def gap (depth : Nat) : List Char := '\n' :: List.replicate (2 * depth) ' '

mutual
def pretty (depth : Nat) : Json → List Char
  | arr [] => ['[', ']']
  | arr (j :: items) =>
    '[' :: Delimited.commaJoin (prettyItems (depth + 1) (j :: items)) ++ gap depth ++ [']']
  | obj [] => ['\x7b', '\x7d']
  | obj (field :: fields) =>
    '\x7b' :: Delimited.commaJoin (prettyFields (depth + 1) (field :: fields)) ++ gap depth ++ ['\x7d']
  | j => JsValue.stringify j

/-- The elements, each with the line end in front of it. -/
def prettyItems (depth : Nat) : List Json → List (List Char)
  | [] => []
  | j :: items => (gap depth ++ pretty depth j) :: prettyItems depth items

def prettyFields (depth : Nat) : List (String × Json) → List (List Char)
  | [] => []
  | (k, j) :: fields =>
    (gap depth ++ (JsValue.quote k ++ ':' :: ' ' :: pretty depth j)) :: prettyFields depth fields
end

example : String.ofList (pretty 0 (obj [("version", num 1), ("events", arr [null, arr []])])) =
    "\x7b\n  \"version\": 1,\n  \"events\": [\n    null,\n    []\n  ]\n\x7d" := by decide +kernel

/-! ### Reading -/

theorem skipSpace_append {space : List Char} (hspace : ∀ c ∈ space, isSpace c = true)
    (cs : List Char) : skipSpace (space ++ cs) = skipSpace cs :=
  List.dropWhile_append_of_pos hspace

theorem isSpace_gap (depth : Nat) : ∀ c ∈ gap depth, isSpace c = true := by
  refine List.forall_mem_cons.mpr ⟨by decide, fun c hc => ?_⟩
  rw [List.eq_of_mem_replicate hc]
  decide

theorem token_gap (c : Char) (depth : Nat) (cs : List Char) :
    token c (gap depth ++ cs) = token c cs := by
  rw [token, token, skipSpace_append (isSpace_gap depth)]

theorem value_space {space : List Char} (hspace : ∀ c ∈ space, isSpace c = true) (fuel : Nat)
    (cs : List Char) : value fuel (space ++ cs) = value fuel cs := by
  cases fuel with
  | zero => rw [value, value]
  | succ fuel => rw [value, value, skipSpace_append hspace]

theorem value_blank (fuel : Nat) (cs : List Char) : value fuel (' ' :: cs) = value fuel cs :=
  value_space (List.forall_mem_singleton.mpr rfl) fuel cs

theorem stops_gap (depth : Nat) (cs : List Char) : Stops (gap depth ++ cs) :=
  stops_of (by decide) _

theorem members_gap (fuel : Nat) (done : List (String × Json)) (depth : Nat) (cs : List Char) :
    members fuel done (gap depth ++ cs) = members fuel done cs := by
  cases fuel with
  | zero => rw [members, members]
  | succ fuel => rw [members, members, token_gap]

theorem token_pretty {j : Json} (h : WellFormed j) (depth : Nat) (rest : List Char) :
    token ']' (pretty depth j ++ rest) = none := by
  cases j with
  | arr items => cases items <;> exact token_ne (by decide) (by decide) _
  | obj fields => cases fields <;> exact token_ne (by decide) (by decide) _
  | null | bool b | num q | str s => exact token_stringify h rest

mutual
/-- A value is read back from its indented text. -/
theorem value_pretty (j : Json) (h : WellFormed j) (depth : Nat) (rest : List Char)
    (hrest : Stops rest) : Settles (value · (pretty depth j ++ rest)) (j, rest) := by
  cases j with
  | null | bool b | str s | num q => exact value_stringify _ h rest hrest
  | arr items =>
    cases items with
    | nil => exact .of_succ fun _ => value_bracket _ _
    | cons j items =>
      have htext : pretty depth (arr (j :: items)) ++ rest =
          '[' :: (Delimited.commaJoin (prettyItems (depth + 1) (j :: items)) ++
            (gap depth ++ ']' :: rest)) := by
        simp [pretty]
      rw [htext]
      refine (elements_pretty (j :: items) h (depth + 1) depth [] rest (List.cons_ne_nil _ _)).call
        fun fuel hitems => ?_
      obtain ⟨tail, htail⟩ := exists_commaJoin_cons (gap (depth + 1) ++ pretty (depth + 1) j)
        (prettyItems (depth + 1) items)
      rw [prettyItems, htail, List.append_assoc, List.append_assoc] at hitems ⊢
      rw [value_bracket, token_gap, token_pretty h.1]
      exact hitems
  | obj fields =>
    obtain ⟨hkeys, h⟩ := h
    cases fields with
    | nil => exact .of_succ fun _ => value_brace _ _
    | cons field fields =>
      have htext : pretty depth (obj (field :: fields)) ++ rest =
          '\x7b' :: (Delimited.commaJoin (prettyFields (depth + 1) (field :: fields)) ++
            (gap depth ++ '\x7d' :: rest)) := by
        simp [pretty]
      rw [htext]
      refine (members_pretty (field :: fields) h (depth + 1) depth [] hkeys rest
        (List.cons_ne_nil _ _)).call fun fuel hfields => ?_
      obtain ⟨k, j⟩ := field
      obtain ⟨tail, htail⟩ := exists_commaJoin_cons
        (gap (depth + 1) ++ (JsValue.quote k ++ ':' :: ' ' :: pretty (depth + 1) j))
        (prettyFields (depth + 1) fields)
      rw [prettyFields, htail, List.append_assoc, List.append_assoc, List.append_assoc, quote_append]
        at hfields ⊢
      rw [value_brace, token_gap, token_ne rfl (by decide)]
      exact hfields

/-- The elements that are still to come are read back. -/
theorem elements_pretty (items : List Json) (h : ItemsWellFormed items) (depth outer : Nat)
    (done : List Json) (rest : List Char) (hne : items ≠ []) :
    Settles (elements · done (Delimited.commaJoin (prettyItems depth items) ++
      (gap outer ++ ']' :: rest))) (arr (done ++ items), rest) := by
  cases items with
  | nil => exact absurd rfl hne
  | cons j items =>
    cases items with
    | nil =>
      refine (value_pretty j h.1 depth (gap outer ++ ']' :: rest) (stops_gap outer _)).call
        fun fuel hvalue => ?_
      have htext : Delimited.commaJoin (prettyItems depth [j]) = gap depth ++ pretty depth j := by
        simp [Delimited.commaJoin, prettyItems]
      rw [← value_space (isSpace_gap depth), ← List.append_assoc] at hvalue
      rw [htext, elements_cons hvalue, token_gap, token_gap, token_ne rfl (by decide), token_self rfl]
      rfl
    | cons j' items =>
      let tail := Delimited.commaJoin (prettyItems depth (j' :: items)) ++ (gap outer ++ ']' :: rest)
      refine (value_pretty j h.1 depth (',' :: tail) (stops_of (by decide) _)).call₂
        (elements_pretty (j' :: items) h.2 depth outer (done ++ [j]) rest (List.cons_ne_nil _ _))
        fun fuel hvalue hitems => ?_
      have htext : Delimited.commaJoin (prettyItems depth (j :: j' :: items)) ++
          (gap outer ++ ']' :: rest) = gap depth ++ pretty depth j ++ ',' :: tail := by
        simp [prettyItems, Delimited.commaJoin_cons_cons, tail]
      rw [← value_space (isSpace_gap depth), ← List.append_assoc] at hvalue
      rw [htext, elements_cons hvalue, token_self rfl]
      dsimp only
      rw [hitems, List.append_assoc, List.singleton_append]

/-- The members that are still to come are read back. -/
theorem members_pretty (fields : List (String × Json)) (h : FieldsWellFormed fields)
    (depth outer : Nat) (done : List (String × Json))
    (hkeys : ((done ++ fields).map Prod.fst).Nodup) (rest : List Char) (hne : fields ≠ []) :
    Settles (members · done (Delimited.commaJoin (prettyFields depth fields) ++
      (gap outer ++ '\x7d' :: rest))) (obj (done ++ fields), rest) := by
  cases fields with
  | nil => exact absurd rfl hne
  | cons field fields =>
    obtain ⟨k, j⟩ := field
    have hk : k ∉ done.map Prod.fst := by
      rw [List.map_append, List.nodup_append] at hkeys
      exact fun hmem => hkeys.2.2 k hmem k (List.mem_cons_self ..) rfl
    cases fields with
    | nil =>
      refine (value_pretty j h.1 depth (gap outer ++ '\x7d' :: rest) (stops_gap outer _)).call
        fun fuel hvalue => ?_
      have htext : Delimited.commaJoin (prettyFields depth [(k, j)]) ++
          (gap outer ++ '\x7d' :: rest) = gap depth ++ (JsValue.quote k ++ ':' :: ' ' ::
            (pretty depth j ++ (gap outer ++ '\x7d' :: rest))) := by
        simp [Delimited.commaJoin, prettyFields]
      rw [← value_blank] at hvalue
      rw [htext, members_gap, members_cons hvalue, token_gap, token_gap, token_ne rfl (by decide),
        token_self rfl, insert_of_notMem hk]
      rfl
    | cons field' fields =>
      let tail := Delimited.commaJoin (prettyFields depth (field' :: fields)) ++
        (gap outer ++ '\x7d' :: rest)
      have hdone : done ++ (k, j) :: field' :: fields = done ++ [(k, j)] ++ field' :: fields := by
        simp
      rw [hdone] at hkeys ⊢
      refine (value_pretty j h.1 depth (',' :: tail) (stops_of (by decide) _)).call₂
        (members_pretty (field' :: fields) h.2 depth outer (done ++ [(k, j)]) hkeys rest
          (List.cons_ne_nil _ _)) fun fuel hvalue hfields => ?_
      have htext : Delimited.commaJoin (prettyFields depth ((k, j) :: field' :: fields)) ++
          (gap outer ++ '\x7d' :: rest) = gap depth ++ (JsValue.quote k ++ ':' :: ' ' ::
            (pretty depth j ++ ',' :: tail)) := by
        obtain ⟨k', j'⟩ := field'
        simp [prettyFields, Delimited.commaJoin_cons_cons, tail]
      rw [← value_blank] at hvalue
      rw [htext, members_gap, members_cons hvalue, token_self rfl, insert_of_notMem hk]
      exact hfields
end

/-- `JSON.parse(JSON.stringify(v, null, 2))` is `v`. -/
theorem parse_pretty {j : Json} (h : WellFormed j) :
    parse (String.ofList (pretty 0 j)) = some j := by
  obtain ⟨least, hleast⟩ := value_pretty j h 0 [] stops_nil
  rw [List.append_nil] at hleast
  set text := pretty 0 j
  have hleast (fuel : Nat) (hge : fuel ≥ least) : value fuel text = some (j, []) := hleast fuel hge
  have hfuel : 2 * text.length < max least (2 * text.length + 1) :=
    Nat.lt_of_succ_le (Nat.le_max_right ..)
  rw [parse, String.toList_ofList, ← value_eq_of_lt hfuel, hleast _ (Nat.le_max_left ..)]
  rfl

/-! ### Cut off texts -/

open Delimited (Mode)

/-- A reader outside of literals passes over the character. -/
def Still (c : Char) : Prop := ∀ n, Mode.next (.code n) c = .code n

theorem still_of {c : Char} (h : c ∉ ['"', '[', ']', '{', '}']) : Still c := by
  simp only [List.mem_cons, List.not_mem_nil, or_false, not_or] at h
  obtain ⟨h1, h2, h3, h4, h5⟩ := h
  intro n
  simp [Mode.next, *]

/-- What is read between two places brings a reader back to the level of brackets it started
from. -/
def Level (cs rest : List Char) : Prop :=
  ∃ used, cs = used ++ rest ∧ ∀ n, Mode.after (.code n) used = .code n

/-- What is read between two places closes one bracket. -/
def Closes (cs rest : List Char) : Prop :=
  ∃ used, cs = used ++ rest ∧ ∀ n, Mode.after (.code (n + 1)) used = .code n

variable {cs ds rest : List Char}

theorem Level.rfl : Level cs cs := ⟨[], by simp⟩

theorem Level.trans (h : Level cs ds) (h' : Level ds rest) : Level cs rest := by
  obtain ⟨used, rfl, hused⟩ := h
  obtain ⟨used', rfl, hused'⟩ := h'
  refine ⟨used ++ used', (List.append_assoc ..).symm, fun n => ?_⟩
  rw [Delimited.after_append, hused, hused']

theorem Level.closes (h : Level cs ds) (h' : Closes ds rest) : Closes cs rest := by
  obtain ⟨used, rfl, hused⟩ := h
  obtain ⟨used', rfl, hused'⟩ := h'
  refine ⟨used ++ used', (List.append_assoc ..).symm, fun n => ?_⟩
  rw [Delimited.after_append, hused, hused']

theorem level_cons {c : Char} (hc : Still c) : Level (c :: cs) cs := ⟨[c], by rfl, hc⟩

theorem closes_cons {c : Char} (hc : c = ']' ∨ c = '}') : Closes (c :: cs) cs := by
  refine ⟨[c], by rfl, fun n => ?_⟩
  obtain rfl | rfl := hc <;> simp [Mode.next]

/-- An opening bracket and what closes it. -/
theorem Closes.level {c : Char} (hc : c = '[' ∨ c = '{') (h : Closes cs rest) :
    Level (c :: cs) rest := by
  obtain ⟨used, rfl, hused⟩ := h
  refine ⟨c :: used, by rfl, fun n => ?_⟩
  rw [Delimited.after_cons]
  obtain rfl | rfl := hc
  · exact hused n
  · exact hused n

theorem level_dropWhile {p : Char → Bool} (hp : ∀ c, p c = true → Still c) :
    Level cs (cs.dropWhile p) := by
  induction cs with
  | nil => exact .rfl
  | cons c cs ih =>
    cases hc : p c with
    | false =>
      rw [List.dropWhile_cons_of_neg (by simp [hc])]
      exact .rfl
    | true =>
      rw [List.dropWhile_cons_of_pos hc]
      exact (level_cons (hp c hc)).trans ih

theorem still_of_isSpace (c : Char) (hc : isSpace c = true) : Still c := by
  apply still_of
  intro hmem
  have hnone : (['"', '[', ']', '{', '}'].all fun c => !isSpace c) = true := by decide
  have hnot := List.all_eq_true.mp hnone c hmem
  rw [hc] at hnot
  cases hnot

theorem still_of_isDigit (c : Char) (hc : c.isDigit = true) : Still c := by
  apply still_of
  intro hmem
  have hnone : (['"', '[', ']', '{', '}'].all fun c => !c.isDigit) = true := by decide
  have hnot := List.all_eq_true.mp hnone c hmem
  rw [hc] at hnot
  cases hnot

theorem level_skipSpace (cs : List Char) : Level cs (skipSpace cs) :=
  level_dropWhile still_of_isSpace

theorem exists_of_token {c : Char} (h : token c cs = some rest) : Level cs (c :: rest) := by
  have hspace := level_skipSpace cs
  rw [token] at h
  split at h
  · cases h
  next c' rest' hs =>
  rw [hs] at hspace
  split at h
  · next heq =>
    cases h
    exact heq ▸ hspace
  · cases h

theorem level_token {c : Char} (hc : Still c) (h : token c cs = some rest) : Level cs rest :=
  (exists_of_token h).trans (level_cons hc)

theorem closes_token {c : Char} (hc : c = ']' ∨ c = '}') (h : token c cs = some rest) :
    Closes cs rest :=
  (exists_of_token h).closes (closes_cons hc)

theorem level_digits {r : List Char × List Char} (h : digits cs = some r) : Level cs r.2 := by
  rw [digits] at h
  split at h <;> cases h
  exact level_dropWhile still_of_isDigit

theorem level_minus (cs : List Char) : Level cs (minus cs).2 := by
  rw [minus.eq_def]
  split
  · exact level_cons (still_of (by decide))
  · exact .rfl

theorem level_fraction {r : List Char × List Char} (h : fraction cs = some r) : Level cs r.2 := by
  rw [fraction.eq_def] at h
  split at h
  · exact (level_cons (still_of (by decide))).trans (level_digits h)
  · cases h
    exact .rfl

theorem level_exponent {r : Int × List Char} (h : exponent cs = some r) : Level cs r.2 := by
  rw [exponent.eq_def] at h
  split at h
  · cases h
    exact .rfl
  next c cs =>
  split at h
  · next hc =>
    obtain ⟨r, hr, rfl⟩ := Option.map_eq_some_iff.mp h
    have hletter : Still c := by
      rcases hc with rfl | rfl <;> exact still_of (by decide)
    refine (level_cons hletter).trans (Level.trans ?_ (level_digits hr))
    split
    · next hplus =>
      cases cs with
      | nil => cases hplus
      | cons d cs =>
        obtain rfl := Option.some.inj hplus
        exact level_cons (still_of (by decide))
    · exact level_minus cs
  · cases h
    exact .rfl

theorem level_scalar {r : Json × List Char} (h : scalar cs = some r) : Level cs r.2 := by
  rw [scalar.eq_def] at h
  split at h
  · cases h
    exact ⟨"true".toList, by rfl, fun _ => by rfl⟩
  · cases h
    exact ⟨"false".toList, by rfl, fun _ => by rfl⟩
  · cases h
    exact ⟨"null".toList, by rfl, fun _ => by rfl⟩
  · obtain ⟨r, hr, rfl⟩ := Option.map_eq_some_iff.mp h
    obtain ⟨whole, frac, exp, hwhole, hfrac, hexp, hrest⟩ := number_parts hr
    dsimp only
    rw [hrest]
    exact (level_minus cs).trans ((level_digits hwhole).trans
      ((level_fraction hfrac).trans (level_exponent hexp)))

/-- Hexadecimal digits are read in a literal without leaving it. -/
theorem after_hexDigits {ds : List Char} {k m : Nat}
    (h : ds.foldlM (fun n c => (hexDigit c).map (16 * n + ·)) k = some m) (n : Nat) :
    Mode.after (.literal n) ds = .literal n := by
  induction ds generalizing k with
  | nil => rfl
  | cons d ds ih =>
    rw [List.foldlM_cons] at h
    obtain ⟨k', hd, h⟩ := Option.bind_eq_some_iff.mp h
    have hquote : d ≠ '"' := by
      rintro rfl
      cases hd
    have hslash : d ≠ '\\' := by
      rintro rfl
      cases hd
    rw [Delimited.after_cons, Mode.next, if_neg hquote, if_neg hslash]
    exact ih h

/-- A literal is read up to the quote that ends it. -/
theorem after_units {r : List Nat × List Char} (h : units cs = some r) (n : Nat) :
    ∃ used, cs = used ++ r.2 ∧ Mode.after (.literal n) used = .code n := by
  fun_induction units cs generalizing r with
  | case1 => cases h
  | case2 cs =>
    cases h
    exact ⟨['"'], by rfl, by simp [Mode.next]⟩
  | case3 a b c d cs _ ih =>
    obtain ⟨_, hdigits, h⟩ := Option.bind_eq_some_iff.mp h
    obtain ⟨r, hr, rfl⟩ := Option.map_eq_some_iff.mp h
    obtain ⟨used, rfl, hused⟩ := ih hr
    refine ⟨'\\' :: 'u' :: ([a, b, c, d] ++ used), by rfl, ?_⟩
    have hstart : Mode.next (.literal n) '\\' = .escape n := by simp [Mode.next]
    rw [Delimited.after_cons, Delimited.after_cons, hstart, Mode.next, Delimited.after_append,
      after_hexDigits hdigits, hused]
  | case4 e cs _ _ ih =>
    obtain ⟨_, -, h⟩ := Option.bind_eq_some_iff.mp h
    obtain ⟨r, hr, rfl⟩ := Option.map_eq_some_iff.mp h
    obtain ⟨used, rfl, hused⟩ := ih hr
    exact ⟨'\\' :: e :: used, by rfl, by simp [Mode.next, hused]⟩
  | case5 => cases h
  | case6 => cases h
  | case7 c cs hquote hslash _ ih =>
    obtain ⟨r', hr, rfl⟩ := Option.map_eq_some_iff.mp h
    obtain ⟨used, rfl, hused⟩ := ih hr
    exact ⟨c :: used, by rfl, by simp [Mode.next, hquote, hslash, hused]⟩

theorem level_string {r : String × List Char} (h : string cs = some r) : Level ('"' :: cs) r.2 := by
  obtain ⟨r, hr, rfl⟩ := Option.map_eq_some_iff.mp h
  obtain ⟨used, hcs, -⟩ := after_units hr 0
  refine ⟨'"' :: used, by rw [hcs]; rfl, fun n => ?_⟩
  obtain ⟨used', hcs', hused'⟩ := after_units hr n
  obtain rfl := List.append_cancel_right (hcs.symm.trans hcs')
  exact hused'

/-- A value is read up to where its brackets are closed. -/
theorem value_level (fuel : Nat) :
    (∀ cs r, value fuel cs = some r → Level cs r.2) ∧
    (∀ fields cs r, members fuel fields cs = some r → Closes cs r.2) ∧
    (∀ items cs r, elements fuel items cs = some r → Closes cs r.2) := by
  induction fuel with
  | zero => exact ⟨nofun, nofun, nofun⟩
  | succ fuel ih =>
    obtain ⟨hvalue, hmembers, helements⟩ := ih
    refine ⟨fun cs r h => ?_, fun fields cs r h => ?_, fun items cs r h => ?_⟩
    · have hspace := level_skipSpace cs
      rw [value] at h
      split at h
      · cases h
      next c rest hs =>
      rw [hs] at hspace
      apply hspace.trans
      split_ifs at h with hbrace hbracket hquote
      · apply Closes.level (.inr hbrace)
        split at h
        · next hclose =>
          cases h
          exact closes_token (.inr rfl) hclose
        · exact hmembers [] _ _ h
      · apply Closes.level (.inl hbracket)
        split at h
        · next hclose =>
          cases h
          exact closes_token (.inl rfl) hclose
        · exact helements [] _ _ h
      · obtain ⟨s, hs, rfl⟩ := Option.map_eq_some_iff.mp h
        exact hquote ▸ level_string hs
      · exact level_scalar h
    · rw [members] at h
      obtain ⟨cs₁, hquote, h⟩ := Option.bind_eq_some_iff.mp h
      obtain ⟨key, hkey, h⟩ := Option.bind_eq_some_iff.mp h
      obtain ⟨cs₂, hcolon, h⟩ := Option.bind_eq_some_iff.mp h
      obtain ⟨v, hv, h⟩ := Option.bind_eq_some_iff.mp h
      apply ((exists_of_token hquote).trans (level_string hkey)).closes
      apply ((level_token (still_of (by decide)) hcolon).trans (hvalue _ _ hv)).closes
      dsimp only at h
      split at h
      · next hcomma => exact (level_token (still_of (by decide)) hcomma).closes (hmembers _ _ _ h)
      · obtain ⟨rest, hclose, rfl⟩ := Option.map_eq_some_iff.mp h
        exact closes_token (.inr rfl) hclose
    · rw [elements] at h
      obtain ⟨v, hv, h⟩ := Option.bind_eq_some_iff.mp h
      apply (hvalue _ _ hv).closes
      dsimp only at h
      split at h
      · next hcomma => exact (level_token (still_of (by decide)) hcomma).closes (helements _ _ _ h)
      · obtain ⟨rest, hclose, rfl⟩ := Option.map_eq_some_iff.mp h
        exact closes_token (.inl rfl) hclose

/-- A text that is JSON leaves no bracket and no literal open. -/
theorem after_of_parse {text : String} {j : Json} (h : parse text = some j) :
    Mode.after (.code 0) text.toList = .code 0 := by
  obtain ⟨r, hvalue, h⟩ := Option.bind_eq_some_iff.mp h
  obtain ⟨used, htext, hused⟩ := (value_level _).1 _ _ hvalue
  obtain ⟨space, hspace, hlevel⟩ := level_skipSpace r.2
  obtain ⟨hend, -⟩ := Option.ite_none_right_eq_some.mp h
  rw [hend, List.append_nil] at hspace
  rw [htext, Delimited.after_append, hused, hspace, hlevel]

theorem level_commaJoin {texts : List (List Char)}
    (h : ∀ t ∈ texts, ∀ n, Mode.after (.code n) t = .code n) (n : Nat) :
    Mode.after (.code n) (Delimited.commaJoin texts) = .code n := by
  induction texts with
  | nil => rfl
  | cons t texts ih =>
    obtain ⟨ht, htexts⟩ := List.forall_mem_cons.mp h
    cases texts with
    | nil => simpa [Delimited.commaJoin] using ht n
    | cons u texts =>
      rw [Delimited.commaJoin_cons_cons, Delimited.after_append, ht, Delimited.after_cons]
      exact ih htexts

theorem level_gap (depth n : Nat) : Mode.after (.code n) (gap depth) = .code n := by
  obtain ⟨used, hused, hlevel⟩ := level_skipSpace (gap depth)
  have hnone : skipSpace (gap depth) = [] := by
    rw [← List.append_nil (gap depth), skipSpace_append (isSpace_gap depth)]
    rfl
  rw [hnone, List.append_nil] at hused
  rw [hused, hlevel]

theorem level_pretty {j : Json} (h : WellFormed j) (depth n : Nat) :
    Mode.after (.code n) (pretty depth j) = .code n := by
  obtain ⟨least, hleast⟩ := value_pretty j h depth [] stops_nil
  obtain ⟨used, hused, hlevel⟩ := (value_level _).1 _ _ (hleast least (Nat.le_refl _))
  rw [List.append_nil, List.append_nil] at hused
  rw [hused, hlevel]

theorem level_prettyItems {items : List Json} (h : ItemsWellFormed items) (depth : Nat) :
    ∀ t ∈ prettyItems depth items, ∀ n, Mode.after (.code n) t = .code n := by
  induction items with
  | nil => exact List.forall_mem_nil _
  | cons j items ih =>
    refine List.forall_mem_cons.mpr ⟨fun n => ?_, ih h.2⟩
    rw [Delimited.after_append, level_gap, level_pretty h.1]

theorem level_prettyFields {fields : List (String × Json)} (h : FieldsWellFormed fields)
    (depth : Nat) : ∀ t ∈ prettyFields depth fields, ∀ n, Mode.after (.code n) t = .code n := by
  induction fields with
  | nil => exact List.forall_mem_nil _
  | cons field fields ih =>
    obtain ⟨k, j⟩ := field
    refine List.forall_mem_cons.mpr ⟨fun n => ?_, ih h.2⟩
    rw [Delimited.after_append, level_gap, Delimited.after_append, (JsValue.balanced_quote k).after,
      Delimited.after_cons, Delimited.after_cons, still_of (by decide), still_of (by decide),
      level_pretty h.1]

/-- An object or an array, as opposed to what stands for itself. -/
def IsBracketed : Json → Prop
  | arr _ | obj _ => True
  | _ => False

theorem exists_inner {j : Json} (h : WellFormed j) (hbracketed : j.IsBracketed) :
    ∃ o c inner, pretty 0 j = o :: inner ++ [c] ∧ (o = '[' ∨ o = '{') ∧
      ∀ n, Mode.after (.code n) inner = .code n := by
  cases j with
  | null | bool | num | str => cases hbracketed
  | arr items =>
    cases items with
    | nil => exact ⟨'[', ']', [], by simp [pretty], .inl rfl, fun _ => rfl⟩
    | cons j items =>
      refine ⟨'[', ']', Delimited.commaJoin (prettyItems 1 (j :: items)) ++ gap 0,
        by simp [pretty], .inl rfl, fun n => ?_⟩
      rw [Delimited.after_append, level_commaJoin (level_prettyItems h 1), level_gap]
  | obj fields =>
    cases fields with
    | nil => exact ⟨'\x7b', '\x7d', [], by simp [pretty], .inr rfl, fun _ => rfl⟩
    | cons field fields =>
      refine ⟨'\x7b', '\x7d', Delimited.commaJoin (prettyFields 1 (field :: fields)) ++ gap 0,
        by simp [pretty], .inr rfl, fun n => ?_⟩
      rw [Delimited.after_append, level_commaJoin (level_prettyFields h.2 1), level_gap]

/-- The text of an object or array leaves its bracket open up to the last character. -/
theorem after_pretty_front {j : Json} (h : WellFormed j) (hbracketed : j.IsBracketed)
    {front back : List Char} (htext : pretty 0 j = front ++ back) (hfront : front ≠ [])
    (hback : back ≠ []) : Mode.after (.code 0) front ≠ .code 0 := by
  obtain ⟨o, c, inner, hinner, ho, hlevel⟩ := exists_inner h hbracketed
  obtain ⟨c', front, rfl⟩ := List.exists_cons_of_ne_nil hfront
  rw [hinner, List.cons_append, List.cons_append, List.cons.injEq] at htext
  obtain ⟨rfl, htext⟩ := htext
  have hopen : Mode.next (.code 0) o = .code 1 := by
    obtain rfl | rfl := ho <;> rfl
  obtain ⟨rest, d, rfl⟩ := (List.eq_nil_or_concat back).resolve_left hback
  rw [List.concat_eq_append, ← List.append_assoc] at htext
  rw [Delimited.after_cons, hopen]
  exact Delimited.after_front_ne_zero hlevel (List.append_inj' htext rfl).1

/-- The characters that stand for cut off bytes close nothing. -/
theorem after_replacements {m : Mode} (hm : m ≠ .code 0) (k : Nat) :
    m.after (List.replicate k '\uFFFD') ≠ .code 0 := by
  induction k generalizing m with
  | zero => exact hm
  | succ k ih =>
    rw [List.replicate_succ, Delimited.after_cons]
    apply ih
    cases m with
    | code n => exact hm
    | literal n | escape n => rintro ⟨⟩

theorem parse_replacements (k : Nat) : parse (String.ofList (List.replicate k '\uFFFD')) = none := by
  cases k with
  | zero => rfl
  | succ k =>
    rw [parse, String.toList_ofList, List.replicate_succ, value_literal rfl (by decide) (by decide)
      (by decide)]
    rfl

/-- The text of an object or array that is cut off is not JSON, nor is it with the characters that
stand for the bytes of a character in which it is cut off. -/
theorem parse_cut_off {j : Json} (h : WellFormed j) (hbracketed : j.IsBracketed)
    {front back : List Char} (htext : pretty 0 j = front ++ back) (hback : back ≠ []) (k : Nat) :
    parse (String.ofList (front ++ List.replicate k '\uFFFD')) = none := by
  by_cases hfront : front = []
  · rw [hfront, List.nil_append]
    exact parse_replacements k
  · have hopen := after_pretty_front h hbracketed htext hfront hback
    cases hparse : parse (String.ofList (front ++ List.replicate k '\uFFFD')) with
    | none => rfl
    | some j' =>
      have hclosed := after_of_parse hparse
      rw [String.toList_ofList, Delimited.after_append] at hclosed
      exact absurd hclosed (after_replacements hopen k)

end KirkForge.Json
