import KirkForge.Theory.JsonCoercion
import KirkForge.Theory.JsonPattern
import Mathlib.Data.List.TakeWhile

/-!
# The strings of a value

The strings in a value, and patterns of characters in them: a value that is read from a text without
the pattern has no string with the pattern, if no escape in the text spells one of its characters.
-/

namespace KirkForge.Json

mutual
/-- All strings in the value, its keys apart. -/
def AllStrings (P : String → Prop) : Json → Prop
  | str s => P s
  | arr items => AllItemStrings P items
  | obj fields => AllFieldStrings P fields
  | null | bool _ | num _ => True

def AllItemStrings (P : String → Prop) : List Json → Prop
  | [] => True
  | j :: items => AllStrings P j ∧ AllItemStrings P items

def AllFieldStrings (P : String → Prop) : List (String × Json) → Prop
  | [] => True
  | (_, j) :: fields => AllStrings P j ∧ AllFieldStrings P fields
end

section
variable {P : String → Prop}

theorem allItemStrings_iff {items : List Json} :
    AllItemStrings P items ↔ ∀ j ∈ items, AllStrings P j := by
  induction items with
  | nil => simp [AllItemStrings]
  | cons j items ih => simp [AllItemStrings, ih]

theorem allFieldStrings_iff {fields : List (String × Json)} :
    AllFieldStrings P fields ↔ ∀ e ∈ fields, AllStrings P e.2 := by
  induction fields with
  | nil => simp [AllFieldStrings]
  | cons e fields ih => simp [AllFieldStrings, ih]

theorem allStrings_get? {j v : Json} (h : AllStrings P j) {key : String}
    (hv : j.get? key = some v) : AllStrings P v := by
  cases j with
  | obj fields =>
    have hmem : ∀ fields : List (String × Json), OrderedMap.lookup key fields = some v →
        ∃ k, (k, v) ∈ fields := by
      intro fields hlookup
      induction fields with
      | nil => cases hlookup
      | cons e fields ih =>
        rw [OrderedMap.lookup] at hlookup
        split at hlookup
        · cases hlookup
          exact ⟨e.1, List.mem_cons_self⟩
        · obtain ⟨k, hk⟩ := ih hlookup
          exact ⟨k, List.mem_cons_of_mem _ hk⟩
    obtain ⟨k, hk⟩ := hmem fields hv
    exact allFieldStrings_iff.mp h _ hk
  | null | bool b | num q | str s | arr items => cases hv

theorem allFieldStrings_insert {fields : List (String × Json)} (h : AllFieldStrings P fields)
    {j : Json} (hj : AllStrings P j) (key : String) :
    AllFieldStrings P (OrderedMap.insert key j fields) := by
  induction fields with
  | nil => exact ⟨hj, trivial⟩
  | cons e fields ih =>
    obtain ⟨k, v⟩ := e
    rw [OrderedMap.insert]
    split
    · exact ⟨hj, h.2⟩
    · exact ⟨h.1, ih h.2⟩

mutual
theorem allStrings_held (j : Json) (h : AllStrings P j) : AllStrings P (held j) := by
  cases j with
  | arr items => exact allItemStrings_held items h
  | obj fields =>
    refine allFieldStrings_iff.mpr fun e he => ?_
    exact allFieldStrings_iff.mp (allFieldStrings_held fields h) e
      ((List.mem_insertionSort _).mp he)
  | null | bool b | num q => trivial
  | str s => exact h

theorem allItemStrings_held (items : List Json) (h : AllItemStrings P items) :
    AllItemStrings P (rebuildItems (fun q => num (JsNumber.double q)) orderKeys items) := by
  cases items with
  | nil => trivial
  | cons j items => exact ⟨allStrings_held j h.1, allItemStrings_held items h.2⟩

theorem allFieldStrings_held (fields : List (String × Json)) (h : AllFieldStrings P fields) :
    AllFieldStrings P (rebuildFields (fun q => num (JsNumber.double q)) orderKeys fields) := by
  cases fields with
  | nil => trivial
  | cons e fields => exact ⟨allStrings_held e.2 h.1, allFieldStrings_held fields h.2⟩
end

end

/-! ### What is read without an escape -/

/-- The rest follows on characters among which there is no backslash. -/
def Follows (cs rest : List Char) : Prop := ∃ front, cs = front ++ rest ∧ '\\' ∉ front

variable {pattern cs ds rest : List Char}

theorem Follows.rfl : Follows cs cs := ⟨[], by simp⟩

theorem Follows.trans (h : Follows cs ds) (h' : Follows ds rest) : Follows cs rest := by
  obtain ⟨front, rfl, hfront⟩ := h
  obtain ⟨front', rfl, hfront'⟩ := h'
  exact ⟨front ++ front', (List.append_assoc ..).symm, by simp [hfront, hfront']⟩

theorem Follows.lacks (h : Follows cs rest) (hcs : Lacks pattern cs) : Lacks pattern rest := by
  obtain ⟨front, rfl, hfront⟩ := h
  exact hcs.drop hfront

theorem follows_cons {c : Char} (hc : c ≠ '\\') : Follows (c :: cs) cs :=
  ⟨[c], rfl, by simpa using hc.symm⟩

theorem follows_dropWhile {p : Char → Bool} (hp : p '\\' = false) :
    Follows cs (cs.dropWhile p) := by
  refine ⟨cs.takeWhile p, List.takeWhile_append_dropWhile.symm, fun h => ?_⟩
  rw [List.mem_takeWhile_imp h] at hp
  cases hp

theorem follows_token {c : Char} (hc : c ≠ '\\') (h : token c cs = some rest) :
    Follows cs rest := by
  have hspace : Follows cs (skipSpace cs) := follows_dropWhile (by decide)
  rw [token] at h
  split at h
  · cases h
  next c' rest' hs =>
  rw [hs] at hspace
  split at h
  · next heq =>
    cases h
    exact hspace.trans (follows_cons (heq ▸ hc))
  · cases h

theorem follows_digits {r : List Char × List Char} (h : digits cs = some r) :
    Follows cs r.2 := by
  rw [digits] at h
  split at h <;> cases h
  exact follows_dropWhile (by decide)

theorem follows_minus (cs : List Char) : Follows cs (minus cs).2 := by
  rw [minus.eq_def]
  split
  · exact follows_cons (by decide)
  · exact Follows.rfl

theorem follows_fraction {r : List Char × List Char} (h : fraction cs = some r) :
    Follows cs r.2 := by
  rw [fraction.eq_def] at h
  split at h
  · exact (follows_cons (by decide)).trans (follows_digits h)
  · cases h
    exact Follows.rfl

theorem follows_exponent {r : Int × List Char} (h : exponent cs = some r) : Follows cs r.2 := by
  rw [exponent.eq_def] at h
  split at h
  · cases h
    exact Follows.rfl
  next c cs =>
  split at h
  · next hc =>
    obtain ⟨r, hr, rfl⟩ := Option.map_eq_some_iff.mp h
    have hletter : c ≠ '\\' := by rcases hc with rfl | rfl <;> decide
    refine (follows_cons hletter).trans (Follows.trans ?_ (follows_digits hr))
    split
    · next hplus =>
      cases cs with
      | nil => cases hplus
      | cons d cs =>
        obtain rfl := Option.some.inj hplus
        exact follows_cons (by decide)
    · exact follows_minus cs
  · cases h
    exact Follows.rfl

theorem follows_number {r : ℚ × List Char} (h : number cs = some r) : Follows cs r.2 := by
  obtain ⟨whole, frac, exp, hwhole, hfrac, hexp, hrest⟩ := number_parts h
  rw [hrest]
  exact (follows_minus cs).trans ((follows_digits hwhole).trans
    ((follows_fraction hfrac).trans (follows_exponent hexp)))

theorem follows_scalar {r : Json × List Char} (h : scalar cs = some r) :
    Follows cs r.2 ∧ ∀ P, AllStrings P r.1 := by
  rw [scalar.eq_def] at h
  split at h
  · cases h
    exact ⟨⟨"true".toList, rfl, by decide⟩, fun _ => trivial⟩
  · cases h
    exact ⟨⟨"false".toList, rfl, by decide⟩, fun _ => trivial⟩
  · cases h
    exact ⟨⟨"null".toList, rfl, by decide⟩, fun _ => trivial⟩
  · obtain ⟨r, hr, rfl⟩ := Option.map_eq_some_iff.mp h
    exact ⟨follows_number hr, fun _ => trivial⟩

/-! ### Values -/

/-- No string with the pattern is read from a text that lacks it. -/
theorem value_lacks (hplain : ∀ c ∈ pattern, Plain c) (hne : pattern ≠ []) (fuel : Nat) :
    (∀ cs r, value fuel cs = some r → Lacks pattern cs →
      AllStrings (¬pattern <:+: ·.toList) r.1 ∧ Lacks pattern r.2) ∧
    (∀ fields cs r, members fuel fields cs = some r → Lacks pattern cs →
      AllFieldStrings (¬pattern <:+: ·.toList) fields →
      AllStrings (¬pattern <:+: ·.toList) r.1 ∧ Lacks pattern r.2) ∧
    (∀ items cs r, elements fuel items cs = some r → Lacks pattern cs →
      AllItemStrings (¬pattern <:+: ·.toList) items →
      AllStrings (¬pattern <:+: ·.toList) r.1 ∧ Lacks pattern r.2) := by
  induction fuel with
  | zero => exact ⟨nofun, nofun, nofun⟩
  | succ fuel ih =>
    obtain ⟨hvalue, hmembers, helements⟩ := ih
    refine ⟨fun cs r h hcs => ?_, fun fields cs r h hcs hall => ?_,
      fun items cs r h hcs hall => ?_⟩
    · have hspace : Follows cs (skipSpace cs) := follows_dropWhile (by decide)
      rw [value] at h
      split at h
      · cases h
      next c rest hs =>
      rw [hs] at hspace
      have hhead := hspace.lacks hcs
      have hrest (hc : c ≠ '\\') : Lacks pattern rest := (follows_cons hc).lacks hhead
      split_ifs at h with hbrace hbracket hquote
      · have hrest := hrest (hbrace ▸ by decide)
        split at h
        · next hclose =>
          cases h
          exact ⟨trivial, (follows_token (by decide) hclose).lacks hrest⟩
        · exact hmembers [] _ _ h hrest trivial
      · have hrest := hrest (hbracket ▸ by decide)
        split at h
        · next hclose =>
          cases h
          exact ⟨trivial, (follows_token (by decide) hclose).lacks hrest⟩
        · exact helements [] _ _ h hrest trivial
      · obtain ⟨s, hs, rfl⟩ := Option.map_eq_some_iff.mp h
        exact string_lacks hplain hne (hrest (hquote ▸ by decide)) hs
      · obtain ⟨hfollows, hstrings⟩ := follows_scalar h
        exact ⟨hstrings _, hfollows.lacks hhead⟩
    · rw [members] at h
      obtain ⟨cs₁, hquote, h⟩ := Option.bind_eq_some_iff.mp h
      obtain ⟨key, hkey, h⟩ := Option.bind_eq_some_iff.mp h
      obtain ⟨cs₂, hcolon, h⟩ := Option.bind_eq_some_iff.mp h
      obtain ⟨v, hv, h⟩ := Option.bind_eq_some_iff.mp h
      have hcs := (follows_token (by decide) hquote).lacks hcs
      have hcs := (string_lacks hplain hne hcs hkey).2
      have hcs := (follows_token (by decide) hcolon).lacks hcs
      obtain ⟨hstrings, hcs⟩ := hvalue _ _ hv hcs
      have hall := allFieldStrings_insert hall hstrings key.1
      dsimp only at h
      split at h
      · next hcomma => exact hmembers _ _ _ h ((follows_token (by decide) hcomma).lacks hcs) hall
      · obtain ⟨rest, hclose, rfl⟩ := Option.map_eq_some_iff.mp h
        exact ⟨hall, (follows_token (by decide) hclose).lacks hcs⟩
    · rw [elements] at h
      obtain ⟨v, hv, h⟩ := Option.bind_eq_some_iff.mp h
      obtain ⟨hstrings, hcs⟩ := hvalue _ _ hv hcs
      have hall : AllItemStrings (¬pattern <:+: ·.toList) (items ++ [v.1]) :=
        allItemStrings_iff.mpr (List.forall_mem_append.mpr
          ⟨allItemStrings_iff.mp hall, List.forall_mem_singleton.mpr hstrings⟩)
      dsimp only at h
      split at h
      · next hcomma => exact helements _ _ _ h ((follows_token (by decide) hcomma).lacks hcs) hall
      · obtain ⟨rest, hclose, rfl⟩ := Option.map_eq_some_iff.mp h
        exact ⟨hall, (follows_token (by decide) hclose).lacks hcs⟩

/-- No string of a value that is read from a text without the pattern has it. -/
theorem allStrings_read (hplain : ∀ c ∈ pattern, Plain c) (hne : pattern ≠ []) {text : String}
    (h : Lacks pattern text.toList) {j : Json} (hj : read text = some j) :
    AllStrings (¬pattern <:+: ·.toList) j := by
  obtain ⟨j, hparse, rfl⟩ := Option.map_eq_some_iff.mp hj
  obtain ⟨r, hr, hrest⟩ := Option.bind_eq_some_iff.mp hparse
  split at hrest
  · cases hrest
    exact allStrings_held _ ((value_lacks hplain hne _).1 _ _ hr h).1
  · cases hrest

/-! ### What is written -/

theorem quoteChar_ne_nil (c : Char) : JsValue.quoteChar c ≠ [] := by
  unfold JsValue.quoteChar
  split_ifs <;> exact List.cons_ne_nil _ _

/-- A character is written as it is, or with characters of which none is plain. -/
theorem quoteChar_cases (c : Char) :
    JsValue.quoteChar c = [c] ∨ ∀ d ∈ JsValue.quoteChar c, ¬Plain d := by
  have hdigit : ∀ d < 16, ¬Plain (Nat.digitChar d) := by decide
  have hescaped {cs : List Char} (h : (cs.all fun d => decide (¬Plain d)) = true) :
      cs = [c] ∨ ∀ d ∈ cs, ¬Plain d := .inr (Text.forall_mem_of_all h)
  unfold JsValue.quoteChar
  split
  · next h => rcases h with rfl | rfl <;> exact hescaped (by decide)
  · split_ifs with h1 h2 h3 h4 h5 h6
    · exact hescaped (by decide)
    · exact hescaped (by decide)
    · exact hescaped (by decide)
    · exact hescaped (by decide)
    · exact hescaped (by decide)
    · refine .inr (List.forall_mem_append.mpr ⟨List.forall_mem_append.mpr ⟨?_, ?_⟩, ?_⟩)
      · exact Text.forall_mem_of_all (by decide)
      · exact List.forall_mem_singleton.mpr (hdigit _ (by omega))
      · exact List.forall_mem_singleton.mpr (hdigit _ (by omega))
    · exact .inl rfl

section
variable (hplain : ∀ c ∈ pattern, Plain c)
include hplain

theorem notMem_of_not_plain {c : Char} (hc : ¬Plain c) : c ∉ pattern := fun h => hc (hplain c h)

theorem unescaped_quoteChar (c : Char) (h : Unescaped pattern cs) :
    Unescaped pattern (JsValue.quoteChar c ++ cs) := by
  have hescape {e : Char} {n : Nat} {rest : List Char} (hcode : escapeCode e rest = some n)
      (hn : n ≤ 0x20 ∨ n = '"'.toNat ∨ n = '\\'.toNat) (hrest : Unescaped pattern rest) :
      Unescaped pattern ('\\' :: e :: rest) := by
    have hbracket : e ≠ '[' := by
      rintro rfl
      cases hcode
    refine unescaped_escape.mpr ⟨⟨fun d hd heq => ?_, hbracket⟩, hrest⟩
    obtain rfl : n = d.toNat := Option.some.inj (hcode.symm.trans heq)
    have hd := hplain d hd
    rcases hn with hn | hn | hn
    · exact absurd hd.1 (Nat.not_lt.mpr hn)
    · exact absurd hd (Char.toNat_inj.mp hn ▸ by decide)
    · exact absurd hd (Char.toNat_inj.mp hn ▸ by decide)
  unfold JsValue.quoteChar
  split
  · next hspecial =>
    rcases hspecial with rfl | rfl
    · exact hescape (n := '"'.toNat) rfl (.inr (.inl rfl)) h
    · exact hescape (n := '\\'.toNat) rfl (.inr (.inr rfl)) h
  next hspecial =>
  rw [not_or] at hspecial
  split_ifs with h1 h2 h3 h4 h5 h6
  · exact hescape (n := 0x08) rfl (.inl (by decide)) h
  · exact hescape (n := 0x09) rfl (.inl (by decide)) h
  · exact hescape (n := 0x0A) rfl (.inl (by decide)) h
  · exact hescape (n := 0x0C) rfl (.inl (by decide)) h
  · exact hescape (n := 0x0D) rfl (.inl (by decide)) h
  · have hhex : ∀ n < 0x20, hexDigits ['0', '0', Nat.digitChar (n / 16), Nat.digitChar (n % 16)] =
        some n := by decide
    have hdigits := backslash_notMem_hexDigits (hhex c.toNat h6)
    have hcode : escapeCode 'u' ['0', '0', Nat.digitChar (c.toNat / 16),
        Nat.digitChar (c.toNat % 16)] = some c.toNat := hhex c.toNat h6
    exact hescape (escapeCode_append hcode) (.inl (Nat.le_of_lt h6))
      ((unescaped_append_of_notMem hdigits).mpr h)
  · exact (unescaped_cons hspecial.2).mpr h

theorem unescaped_quote (s : String) (h : Unescaped pattern cs) :
    Unescaped pattern (JsValue.quote s ++ cs) := by
  have hchars (l : List Char) {cs : List Char} (h : Unescaped pattern cs) :
      Unescaped pattern (l.flatMap JsValue.quoteChar ++ cs) := by
    induction l with
    | nil => exact h
    | cons c l ih =>
      rw [List.flatMap_cons, List.append_assoc]
      exact unescaped_quoteChar hplain c ih
  have hquote {cs : List Char} : Unescaped pattern ('"' :: cs) ↔ Unescaped pattern cs :=
    unescaped_cons (by decide)
  rw [JsValue.quote, List.append_assoc]
  exact hquote.mpr (hchars s.toList (hquote.mpr h))

end

/-- A text that no escape of the pattern is brought in by. -/
def Neutral (pattern text : List Char) : Prop :=
  ∀ cs, Unescaped pattern cs → Unescaped pattern (text ++ cs)

theorem neutral_of_notMem {text : List Char} (h : '\\' ∉ text) : Neutral pattern text :=
  fun _ => (unescaped_append_of_notMem h).mpr

theorem Neutral.append {s t : List Char} (hs : Neutral pattern s) (ht : Neutral pattern t) :
    Neutral pattern (s ++ t) := fun cs h => by
  rw [List.append_assoc]
  exact hs _ (ht cs h)

theorem neutral_commaJoin {texts : List (List Char)} (h : ∀ t ∈ texts, Neutral pattern t) :
    Neutral pattern (Delimited.commaJoin texts) := by
  induction texts with
  | nil => exact fun _ h => h
  | cons t texts ih =>
    obtain ⟨ht, htexts⟩ := List.forall_mem_cons.mp h
    cases texts with
    | nil => simpa [Delimited.commaJoin] using ht
    | cons u texts =>
      rw [Delimited.commaJoin_cons_cons]
      have hcomma : Neutral pattern [','] := neutral_of_notMem (by decide)
      exact ht.append (hcomma.append (ih htexts))

theorem neutral_enclosed {o c : Char} (ho : o ≠ '\\') (hc : c ≠ '\\') {texts : List (List Char)}
    (h : ∀ t ∈ texts, Neutral pattern t) :
    Neutral pattern (o :: Delimited.commaJoin texts ++ [c]) := by
  have hopen : Neutral pattern [o] := neutral_of_notMem (by simpa using ho.symm)
  have hclose : Neutral pattern [c] := neutral_of_notMem (by simpa using hc.symm)
  exact (hopen.append (neutral_commaJoin h)).append hclose

theorem neutral_quote (hplain : ∀ c ∈ pattern, Plain c) (s : String) :
    Neutral pattern (JsValue.quote s) :=
  fun _ => unescaped_quote hplain s

mutual
/-- No escape that is written spells a sign of the pattern. -/
theorem neutral_stringify (hplain : ∀ c ∈ pattern, Plain c) (j : Json) :
    Neutral pattern (JsValue.stringify j) := by
  cases j with
  | null => exact neutral_of_notMem (by decide)
  | bool b => cases b <;> exact neutral_of_notMem (by decide)
  | num q =>
    refine neutral_of_notMem fun h => ?_
    rw [JsValue.stringify, JsNumber.text, String.toList_ofList] at h
    exact absurd (JsNumber.finiteChars_subset q _ h) (by decide)
  | str s => exact neutral_quote hplain s
  | arr items =>
    exact neutral_enclosed (by decide) (by decide) (neutral_stringifyItems hplain items)
  | obj fields =>
    exact neutral_enclosed (by decide) (by decide) (neutral_stringifyFields hplain fields)

theorem neutral_stringifyItems (hplain : ∀ c ∈ pattern, Plain c) (items : List Json) :
    ∀ t ∈ JsValue.stringifyItems items, Neutral pattern t := by
  cases items with
  | nil => exact List.forall_mem_nil _
  | cons j items =>
    exact List.forall_mem_cons.mpr ⟨neutral_stringify hplain j, neutral_stringifyItems hplain items⟩

theorem neutral_stringifyFields (hplain : ∀ c ∈ pattern, Plain c)
    (fields : List (String × Json)) : ∀ t ∈ JsValue.stringifyFields fields, Neutral pattern t := by
  cases fields with
  | nil => exact List.forall_mem_nil _
  | cons e fields =>
    obtain ⟨k, j⟩ := e
    refine List.forall_mem_cons.mpr ⟨?_, neutral_stringifyFields hplain fields⟩
    have hcolon : Neutral pattern [':'] := neutral_of_notMem (by decide)
    exact (neutral_quote hplain k).append (hcolon.append (neutral_stringify hplain j))
end

theorem unescaped_stringify (hplain : ∀ c ∈ pattern, Plain c) (j : Json) :
    Unescaped pattern (JsValue.stringify j) := by
  have h := neutral_stringify hplain j [] trivial
  rwa [List.append_nil] at h

/-! ### Patterns in what is written -/

theorem not_infix_of_notMem (hne : pattern ≠ []) (h : ∀ c ∈ cs, c ∉ pattern) :
    ¬pattern <:+: cs := by
  intro hpart
  obtain ⟨a, rest, rfl⟩ := List.exists_cons_of_ne_nil hne
  exact h a (hpart.subset List.mem_cons_self) List.mem_cons_self

theorem prefix_of_quoteChars {q l : List Char} (hq : ∀ c ∈ q, Plain c)
    (h : q <+: l.flatMap JsValue.quoteChar) : q <+: l := by
  induction l generalizing q with
  | nil => exact h
  | cons c l ih =>
    cases q with
    | nil => exact List.nil_prefix
    | cons d q =>
      obtain ⟨hd, hq⟩ := List.forall_mem_cons.mp hq
      rw [List.flatMap_cons] at h
      rcases quoteChar_cases c with hc | hc
      · rw [hc] at h
        obtain ⟨rfl, htail⟩ := List.cons_prefix_cons.mp h
        exact List.cons_prefix_cons.mpr ⟨rfl, ih hq htail⟩
      · cases hcs : JsValue.quoteChar c with
        | nil => exact absurd hcs (quoteChar_ne_nil c)
        | cons e es =>
          rw [hcs] at h hc
          obtain ⟨rfl, -⟩ := List.cons_prefix_cons.mp h
          exact absurd hd (hc d List.mem_cons_self)

theorem infix_of_quoteChars (hplain : ∀ c ∈ pattern, Plain c) (hne : pattern ≠ []) {l : List Char}
    (h : pattern <:+: l.flatMap JsValue.quoteChar) : pattern <:+: l := by
  induction l with
  | nil => exact h
  | cons c l ih =>
    rw [List.flatMap_cons] at h
    rcases quoteChar_cases c with hc | hc
    · rw [hc] at h
      rcases List.infix_cons_iff.mp h with hfirst | hpart
      · refine (prefix_of_quoteChars hplain ?_).isInfix
        rw [List.flatMap_cons, hc]
        exact hfirst
      · exact List.infix_cons (ih hpart)
    · rw [Text.infix_append_of_notMem hne fun d hd => notMem_of_not_plain hplain (hc d hd)] at h
      exact List.infix_cons (ih h)

/-- A literal has the pattern only if the string has it. -/
theorem infix_quote (hplain : ∀ c ∈ pattern, Plain c) (hne : pattern ≠ []) {s : String}
    (h : pattern <:+: JsValue.quote s) : pattern <:+: s.toList := by
  have hquote : '"' ∉ pattern := notMem_of_not_plain hplain (by decide)
  rw [JsValue.quote, Text.infix_concat_of_notMem hne hquote,
    Text.infix_cons_of_notMem hne hquote] at h
  exact infix_of_quoteChars hplain hne h

theorem infix_commaJoin (hplain : ∀ c ∈ pattern, Plain c) (hne : pattern ≠ [])
    {texts : List (List Char)} (h : pattern <:+: Delimited.commaJoin texts) :
    ∃ t ∈ texts, pattern <:+: t := by
  have hcomma : ',' ∉ pattern := notMem_of_not_plain hplain (by decide)
  induction texts with
  | nil => exact absurd (List.infix_nil.mp h) hne
  | cons t texts ih =>
    cases texts with
    | nil => exact ⟨t, List.mem_cons_self, by simpa [Delimited.commaJoin] using h⟩
    | cons u texts =>
      rw [Delimited.commaJoin_cons_cons, Text.infix_append_cons hcomma] at h
      rcases h with h | h
      · exact ⟨t, List.mem_cons_self, h⟩
      · obtain ⟨t', ht', hpart⟩ := ih h
        exact ⟨t', List.mem_cons_of_mem _ ht', hpart⟩

theorem infix_enclosed (hplain : ∀ c ∈ pattern, Plain c) (hne : pattern ≠ []) {o c : Char}
    (ho : ¬Plain o) (hc : ¬Plain c) {texts : List (List Char)}
    (h : pattern <:+: o :: Delimited.commaJoin texts ++ [c]) : ∃ t ∈ texts, pattern <:+: t := by
  rw [Text.infix_concat_of_notMem hne (notMem_of_not_plain hplain hc),
    Text.infix_cons_of_notMem hne (notMem_of_not_plain hplain ho)] at h
  exact infix_commaJoin hplain hne h

mutual
/-- The keys of every object in the value. -/
def AllKeys (P : String → Prop) : Json → Prop
  | arr items => AllItemKeys P items
  | obj fields => AllFieldKeys P fields
  | null | bool _ | num _ | str _ => True

def AllItemKeys (P : String → Prop) : List Json → Prop
  | [] => True
  | j :: items => AllKeys P j ∧ AllItemKeys P items

def AllFieldKeys (P : String → Prop) : List (String × Json) → Prop
  | [] => True
  | (k, j) :: fields => P k ∧ AllKeys P j ∧ AllFieldKeys P fields
end

mutual
/-- A pattern stands in the text of a value only if it stands in a string or a key. -/
theorem not_infix_stringify (hplain : ∀ c ∈ pattern, Plain c) (hne : pattern ≠ []) (j : Json)
    (hstrings : AllStrings (¬pattern <:+: ·.toList) j)
    (hkeys : AllKeys (¬pattern <:+: ·.toList) j) : ¬pattern <:+: JsValue.stringify j := by
  have hnot {t : List Char} (ht : ∀ c ∈ t, ¬Plain c) : ¬pattern <:+: t :=
    not_infix_of_notMem hne fun c hc => notMem_of_not_plain hplain (ht c hc)
  cases j with
  | null => exact hnot (Text.forall_mem_of_all (by decide))
  | bool b => cases b <;> exact hnot (Text.forall_mem_of_all (by decide))
  | num q =>
    refine hnot fun c hc => ?_
    rw [JsValue.stringify, JsNumber.text, String.toList_ofList] at hc
    have hall : ∀ c ∈ JsNumber.numberChars, ¬Plain c :=
      Text.forall_mem_of_all (by decide)
    exact hall c (JsNumber.finiteChars_subset q c hc)
  | str s => exact fun h => hstrings (infix_quote hplain hne h)
  | arr items =>
    intro h
    obtain ⟨t, ht, hpart⟩ := infix_enclosed hplain hne (by decide) (by decide) h
    exact not_infix_stringifyItems hplain hne items hstrings hkeys t ht hpart
  | obj fields =>
    intro h
    obtain ⟨t, ht, hpart⟩ := infix_enclosed hplain hne (by decide) (by decide) h
    exact not_infix_stringifyFields hplain hne fields hstrings hkeys t ht hpart

theorem not_infix_stringifyItems (hplain : ∀ c ∈ pattern, Plain c) (hne : pattern ≠ [])
    (items : List Json) (hstrings : AllItemStrings (¬pattern <:+: ·.toList) items)
    (hkeys : AllItemKeys (¬pattern <:+: ·.toList) items) :
    ∀ t ∈ JsValue.stringifyItems items, ¬pattern <:+: t := by
  cases items with
  | nil => exact List.forall_mem_nil _
  | cons j items =>
    exact List.forall_mem_cons.mpr
      ⟨not_infix_stringify hplain hne j hstrings.1 hkeys.1,
        not_infix_stringifyItems hplain hne items hstrings.2 hkeys.2⟩

theorem not_infix_stringifyFields (hplain : ∀ c ∈ pattern, Plain c) (hne : pattern ≠ [])
    (fields : List (String × Json)) (hstrings : AllFieldStrings (¬pattern <:+: ·.toList) fields)
    (hkeys : AllFieldKeys (¬pattern <:+: ·.toList) fields) :
    ∀ t ∈ JsValue.stringifyFields fields, ¬pattern <:+: t := by
  cases fields with
  | nil => exact List.forall_mem_nil _
  | cons e fields =>
    obtain ⟨k, j⟩ := e
    refine List.forall_mem_cons.mpr
      ⟨fun h => ?_, not_infix_stringifyFields hplain hne fields hstrings.2 hkeys.2.2⟩
    have hcolon : ':' ∉ pattern := notMem_of_not_plain hplain (by decide)
    rcases (Text.infix_append_cons hcolon).mp h with h | h
    · exact hkeys.1 (infix_quote hplain hne h)
    · exact not_infix_stringify hplain hne j hstrings.1 hkeys.2.1 h
end

/-! ### Patterns in what is converted -/

theorem not_plain_ofRead (q : ℚ) : ∀ c ∈ (JsNumber.ofRead q).text.toList, ¬Plain c := by
  rw [JsNumber.ofRead]
  split
  · split <;> exact Text.forall_mem_of_all (by decide)
  · intro c hc
    rw [JsNumber.text, String.toList_ofList] at hc
    have hall : ∀ c ∈ JsNumber.numberChars, ¬Plain c :=
      Text.forall_mem_of_all (by decide)
    exact hall c (JsNumber.finiteChars_subset q c hc)

mutual
theorem not_infix_toText (hplain : ∀ c ∈ pattern, Plain c) (hne : pattern ≠ []) (j : Json)
    (h : AllStrings (¬pattern <:+: ·.toList) j) {t : String}
    (ht : toText (fun q => (JsNumber.ofRead q).text) j = some t) : ¬pattern <:+: t.toList := by
  have hnot {t : List Char} (ht : ∀ c ∈ t, ¬Plain c) : ¬pattern <:+: t :=
    not_infix_of_notMem hne fun c hc => notMem_of_not_plain hplain (ht c hc)
  cases j with
  | null =>
    obtain rfl := Option.some.inj ht
    exact hnot (Text.forall_mem_of_all (by decide))
  | bool b =>
    obtain rfl := Option.some.inj ht
    cases b <;> exact hnot (Text.forall_mem_of_all (by decide))
  | num q =>
    obtain rfl := Option.some.inj ht
    exact hnot (not_plain_ofRead q)
  | str s =>
    obtain rfl := Option.some.inj ht
    exact h
  | arr items =>
    obtain ⟨texts, htexts, rfl⟩ := Option.map_eq_some_iff.mp ht
    intro hpart
    rw [String.toList_intercalate] at hpart
    obtain ⟨t, ht, hpart⟩ := infix_commaJoin hplain hne hpart
    obtain ⟨s, hs, rfl⟩ := List.mem_map.mp ht
    exact not_infix_itemTexts hplain hne items h htexts s hs hpart
  | obj fields =>
    rw [toText] at ht
    split at ht
    · cases ht
    · obtain rfl := Option.some.inj ht
      exact hnot (Text.forall_mem_of_all (by decide))

theorem not_infix_itemTexts (hplain : ∀ c ∈ pattern, Plain c) (hne : pattern ≠ [])
    (items : List Json) (h : AllItemStrings (¬pattern <:+: ·.toList) items) {texts : List String}
    (ht : itemTexts (fun q => (JsNumber.ofRead q).text) items = some texts) :
    ∀ t ∈ texts, ¬pattern <:+: t.toList := by
  cases items with
  | nil =>
    obtain rfl := Option.some.inj ht
    exact List.forall_mem_nil _
  | cons j items =>
    have hcons {s : String} {rest : List String} (hs : ¬pattern <:+: s.toList)
        (hrest : itemTexts (fun q => (JsNumber.ofRead q).text) items = some rest) :
        ∀ t ∈ s :: rest, ¬pattern <:+: t.toList :=
      List.forall_mem_cons.mpr ⟨hs, not_infix_itemTexts hplain hne items h.2 hrest⟩
    rw [itemTexts.eq_def] at ht
    split at ht
    · next heq => cases heq
    · next heq =>
      obtain ⟨rfl, rfl⟩ := List.cons.inj heq
      obtain ⟨rest, hrest, rfl⟩ := Option.map_eq_some_iff.mp ht
      exact hcons (mt List.infix_nil.mp hne) hrest
    · next heq =>
      obtain ⟨rfl, rfl⟩ := List.cons.inj heq
      obtain ⟨s, hs, ht⟩ := Option.bind_eq_some_iff.mp ht
      obtain ⟨rest, hrest, rfl⟩ := Option.map_eq_some_iff.mp ht
      exact hcons (not_infix_toText hplain hne j h.1 hs) hrest
end

/-- A text that a value is converted to has the pattern only if a string in the value has it. -/
theorem not_infix_literal (hplain : ∀ c ∈ pattern, Plain c) (hne : pattern ≠ []) {j : Json}
    (h : AllStrings (¬pattern <:+: ·.toList) j) {t : String} (ht : j.literal = some t) :
    ¬pattern <:+: t.toList :=
  not_infix_toText hplain hne j h ht

end KirkForge.Json
