import Mathlib.Data.List.Basic
import Mathlib.Data.List.Count
import Mathlib.Tactic.Common

/-!
# The common event format

A message has a header of fields, each with a bar after it, and an extension of pairs
`key=value` with spaces between them. A backslash escapes the character after it: bars in fields,
equals signs in values and backslashes have to be escaped. A record that is written without escapes
is read again exactly if there is nothing to escape (`split_raw_iff`): every separator of the text
is accounted for, so an escape would make the record shorter, and another separator would make more
fields of it.
-/

namespace KirkForge.Cef

inductive Token
  | plain (c : Char) | escaped (c : Char)
  deriving DecidableEq

/-- A backslash at the end escapes nothing. -/
def tokens : List Char → List Token
  | [] => []
  | [c] => if c = '\\' then [] else [.plain c]
  | c :: d :: cs => if c = '\\' then .escaped d :: tokens cs else .plain c :: tokens (d :: cs)

/-- The character of a field or a key. -/
def Token.char : Token → Char
  | plain c | escaped c => c

/-- The character of a value, where line ends may be written as letters. -/
def Token.valueChar : Token → Char
  | plain c => c
  | escaped c => if c = 'n' then '\n' else if c = 'r' then '\r' else c

/-- What is before and after the first separator. -/
def cut (separator : Char) : List Token → Option (List Token × List Token)
  | [] => none
  | t :: ts =>
    if t = .plain separator then some ([], ts)
    else (cut separator ts).map fun (front, rest) => (t :: front, rest)

/-- What is before and after the last separator. -/
def cutLast (separator : Char) (ts : List Token) : Option (List Token × List Token) :=
  (cut separator ts.reverse).map fun (rest, front) => (front.reverse, rest.reverse)

/-- The fields of a header, and what is after it. -/
def headerFields : Nat → List Token → Option (List (List Char) × List Token)
  | 0, ts => some ([], ts)
  | n + 1, ts => do
    let (field, rest) ← cut '|' ts
    let (fields, rest) ← headerFields n rest
    some (field.map Token.char :: fields, rest)

/-- The pairs of an extension, from the first key and the segments between the equals signs. A
segment that is not the last one has a value and the next key. -/
def pairsFrom (key : List Token) : List (List Token) → Option (List (List Char × List Char))
  | [] => none
  | [value] => some [(key.map Token.char, value.map Token.valueChar)]
  | segment :: segments => do
    let (value, next) ← cutLast ' ' segment
    let pairs ← pairsFrom next segments
    some ((key.map Token.char, value.map Token.valueChar) :: pairs)

def pairs (ts : List Token) : Option (List (List Char × List Char)) :=
  match ts.splitOn (.plain '=') with
  | [] => none
  | key :: segments => pairsFrom key segments

@[ext] structure Record where
  header : List (List Char)
  extension : List (List Char × List Char)
  deriving DecidableEq

/-- Split a message with a header of `n` fields. -/
def split (n : Nat) (message : List Char) : Option Record := do
  let (header, rest) ← headerFields n (tokens message)
  let extension ← pairs rest
  some ⟨header, extension⟩

/-- The fields as they are, each with a bar after it. -/
def rawHeader (header : List (List Char)) : List Char := header.flatMap (· ++ ['|'])

def rawExtension (extension : List (List Char × List Char)) : List Char :=
  [' '].intercalate (extension.map fun (key, value) => key ++ '=' :: value)

/-- The record without escapes. -/
def Record.raw (r : Record) : List Char := rawHeader r.header ++ rawExtension r.extension

/-- Nothing has to be escaped. -/
structure Record.Plain (r : Record) : Prop where
  header : ∀ field ∈ r.header, '|' ∉ field ∧ '\\' ∉ field
  extension : ∀ pair ∈ r.extension, ('=' ∉ pair.1 ∧ '\\' ∉ pair.1) ∧ '=' ∉ pair.2 ∧ '\\' ∉ pair.2

/-- A field that is on one line and needs no escapes. -/
def FieldText (cs : List Char) : Prop := ∀ c ∈ cs, c ∉ ['|', '\\', '\n', '\r']

/-- A key or a value that is on one line and needs no escapes. -/
def ValueText (cs : List Char) : Prop := ∀ c ∈ cs, c ∉ ['=', '\\', '\n', '\r']

instance (cs : List Char) : Decidable (FieldText cs) := List.decidableBAll _ _

instance (cs : List Char) : Decidable (ValueText cs) := List.decidableBAll _ _

/-! ### Tokens -/

variable {cs : List Char} {ts front rest : List Token} {separator : Char}

theorem length_tokens_le (cs : List Char) : (tokens cs).length ≤ cs.length := by
  fun_induction tokens cs with
  | case1 => exact Nat.le_refl _
  | case2 => exact Nat.zero_le _
  | case3 => exact Nat.le_refl _
  | case4 d cs ih =>
    simp only [List.length_cons]
    omega
  | case5 c d cs hc ih =>
    simp only [List.length_cons] at ih ⊢
    omega

/-- An escape takes two characters. -/
theorem not_mem_of_length_tokens (h : cs.length ≤ (tokens cs).length) : '\\' ∉ cs := by
  fun_induction tokens cs with
  | case1 => exact List.not_mem_nil
  | case2 => exact absurd h (by simp)
  | case3 c hc => simpa using Ne.symm hc
  | case4 d cs ih =>
    have hle := length_tokens_le cs
    simp only [List.length_cons] at h
    omega
  | case5 c d cs hc ih =>
    simp only [List.length_cons] at h ih
    exact List.not_mem_cons_of_ne_of_not_mem (Ne.symm hc) (ih (by omega))

theorem tokens_of_not_mem (h : '\\' ∉ cs) : tokens cs = cs.map .plain := by
  fun_induction tokens cs with
  | case1 => rfl
  | case2 => exact absurd List.mem_cons_self h
  | case3 c hc => rfl
  | case4 d cs ih => exact absurd List.mem_cons_self h
  | case5 c d cs hc ih =>
    rw [ih (List.not_mem_of_not_mem_cons h)]
    rfl

@[simp] theorem plain_mem_map {c : Char} : Token.plain c ∈ cs.map Token.plain ↔ c ∈ cs := by
  simp

@[simp] theorem map_char_plain (cs : List Char) : (cs.map Token.plain).map Token.char = cs := by
  simp [Function.comp_def, Token.char]

@[simp] theorem map_valueChar_plain (cs : List Char) :
    (cs.map Token.plain).map Token.valueChar = cs := by
  simp [Function.comp_def, Token.valueChar]

theorem cut_eq_some_iff : cut separator ts = some (front, rest) ↔
    ts = front ++ .plain separator :: rest ∧ .plain separator ∉ front := by
  induction ts generalizing front with
  | nil => simp [cut]
  | cons t ts ih =>
    rw [cut]
    split
    · next ht =>
      cases front with
      | nil => simp [ht, eq_comm]
      | cons u front =>
        refine iff_of_false (by simp) fun h => h.2 ?_
        rw [← ht, (List.cons.inj h.1).1]
        exact List.mem_cons_self
    · next ht =>
      cases front with
      | nil =>
        refine iff_of_false (by simp) fun h => ht (List.cons.inj h.1).1
      | cons u front =>
        rw [Option.map_eq_some_iff]
        constructor
        · rintro ⟨⟨front', rest'⟩, hcut, heq⟩
          cases heq
          obtain ⟨rfl, hmem⟩ := ih.mp hcut
          exact ⟨rfl, List.not_mem_cons_of_ne_of_not_mem (Ne.symm ht) hmem⟩
        · rintro ⟨heq, hmem⟩
          obtain ⟨rfl, htail⟩ := List.cons.inj heq
          exact ⟨(front, rest), ih.mpr ⟨htail, List.not_mem_of_not_mem_cons hmem⟩, rfl⟩

theorem cutLast_eq_some_iff : cutLast separator ts = some (front, rest) ↔
    ts = front ++ .plain separator :: rest ∧ .plain separator ∉ rest := by
  rw [cutLast, Option.map_eq_some_iff]
  constructor
  · rintro ⟨⟨rest', front'⟩, hcut, heq⟩
    cases heq
    obtain ⟨heq, hmem⟩ := cut_eq_some_iff.mp hcut
    refine ⟨?_, by simpa using hmem⟩
    rw [← List.reverse_inj, heq]
    simp
  · rintro ⟨rfl, hmem⟩
    exact ⟨(rest.reverse, front.reverse), cut_eq_some_iff.mpr (by simpa using hmem), by simp⟩

/-! ### Headers -/

variable {n : Nat} {header fields : List (List Char)}

theorem headerFields_succ : headerFields (n + 1) ts = some (fields, rest) ↔
    ∃ field rest' fields', cut '|' ts = some (field, rest') ∧
      headerFields n rest' = some (fields', rest) ∧ fields = field.map Token.char :: fields' := by
  simp only [headerFields, Option.bind_eq_bind, Option.bind_eq_some_iff, Prod.exists,
    Option.some.injEq, Prod.mk.injEq]
  constructor
  · rintro ⟨field, rest', hcut, fields', rest'', hrest, rfl, rfl⟩
    exact ⟨field, rest', fields', hcut, hrest, rfl⟩
  · rintro ⟨field, rest', fields', hcut, hrest, rfl⟩
    exact ⟨field, rest', hcut, fields', rest, hrest, rfl, rfl⟩

theorem length_of_headerFields (h : headerFields n ts = some (fields, rest)) :
    ts.length = (rawHeader fields).length + rest.length := by
  induction n generalizing ts fields with
  | zero =>
    obtain ⟨rfl, rfl⟩ := Prod.mk.inj (Option.some.inj h)
    exact (Nat.zero_add _).symm
  | succ n ih =>
    obtain ⟨field, rest', fields', hcut, hrest, rfl⟩ := headerFields_succ.mp h
    obtain ⟨rfl, -⟩ := cut_eq_some_iff.mp hcut
    rw [List.length_append, List.length_cons, ih hrest, rawHeader, rawHeader, List.flatMap_cons]
    simp only [List.length_append, List.length_map, List.length_singleton]
    omega

/-- Without escapes a header is read as it is exactly if no field has a bar in it. -/
theorem headerFields_raw_iff (header : List (List Char)) (cs : List Char) :
    headerFields header.length ((rawHeader header ++ cs).map .plain) = some (header, rest) ↔
      (∀ field ∈ header, '|' ∉ field) ∧ rest = cs.map .plain := by
  induction header with
  | nil =>
    rw [List.length_nil, headerFields]
    simp [rawHeader, eq_comm]
  | cons field header ih =>
    have hraw : (rawHeader (field :: header) ++ cs).map Token.plain =
        field.map .plain ++ .plain '|' :: (rawHeader header ++ cs).map .plain := by
      simp [rawHeader]
    rw [List.length_cons, headerFields_succ, hraw, List.forall_mem_cons, and_assoc, ← ih]
    constructor
    · rintro ⟨front, rest', fields', hcut, hrest, heq⟩
      obtain ⟨hfield, rfl⟩ := List.cons.inj heq
      obtain ⟨hsame, hmem⟩ := cut_eq_some_iff.mp hcut
      have hlength : (field.map Token.plain).length = front.length := by
        rw [hfield, List.length_map, List.length_map]
      obtain ⟨rfl, htail⟩ := List.append_inj hsame hlength
      obtain ⟨-, rfl⟩ := List.cons.inj htail
      exact ⟨fun hbar => hmem (plain_mem_map.mpr hbar), hrest⟩
    · rintro ⟨hbar, hrest⟩
      refine ⟨field.map .plain, _, header, cut_eq_some_iff.mpr ⟨rfl, ?_⟩, hrest, ?_⟩
      · exact fun hmem => hbar (plain_mem_map.mp hmem)
      · rw [map_char_plain]

/-! ### Extensions -/

variable {key value : List Char} {segments : List (List Token)}
  {ps extension : List (List Char × List Char)}

theorem rawExtension_cons_cons (p q : List Char × List Char)
    (ps : List (List Char × List Char)) :
    rawExtension (p :: q :: ps) = p.1 ++ '=' :: (p.2 ++ ' ' :: rawExtension (q :: ps)) := by
  simp [rawExtension, List.intercalate_cons_cons]

@[simp] theorem rawExtension_singleton (p : List Char × List Char) :
    rawExtension [p] = p.1 ++ '=' :: p.2 := by
  simp [rawExtension]

/-- What is between the equals signs behind the first key. -/
def valueSegments (value : List Char) : List (List Char × List Char) → List (List Char)
  | [] => [value]
  | (key, value') :: ps => (value ++ ' ' :: key) :: valueSegments value' ps

theorem valueSegments_ne_nil (value : List Char) (ps : List (List Char × List Char)) :
    valueSegments value ps ≠ [] := by
  cases ps <;> exact List.cons_ne_nil _ _

theorem length_valueSegments (value : List Char) (ps : List (List Char × List Char)) :
    (valueSegments value ps).length = ps.length + 1 := by
  induction ps generalizing value with
  | nil => rfl
  | cons p ps ih => rw [valueSegments, List.length_cons, ih, List.length_cons]

theorem rawExtension_cons (key value : List Char) (ps : List (List Char × List Char)) :
    rawExtension ((key, value) :: ps) = ['='].intercalate (key :: valueSegments value ps) := by
  induction ps generalizing key value with
  | nil => simp [valueSegments, List.intercalate_cons_cons]
  | cons p ps ih =>
    obtain ⟨key', value'⟩ := p
    rw [rawExtension_cons_cons, ih, valueSegments, List.intercalate_cons_cons]
    simp [List.intercalate_cons_of_ne_nil (valueSegments_ne_nil value' ps)]

theorem pairsFrom_cons {segment : List Token} {keyTokens : List Token} (hne : segments ≠ []) :
    pairsFrom keyTokens (segment :: segments) = some ps ↔
      ∃ value next ps', cutLast ' ' segment = some (value, next) ∧
        pairsFrom next segments = some ps' ∧
        ps = (keyTokens.map Token.char, value.map Token.valueChar) :: ps' := by
  rw [pairsFrom]
  · simp only [Option.bind_eq_bind, Option.bind_eq_some_iff, Prod.exists, Option.some.injEq]
    constructor
    · rintro ⟨value, next, hcut, ps', hrest, rfl⟩
      exact ⟨value, next, ps', hcut, hrest, rfl⟩
    · rintro ⟨value, next, ps', hcut, hrest, rfl⟩
      exact ⟨value, next, hcut, ps', hrest, rfl⟩
  · exact hne

/-- Every segment becomes a pair, and every token a character. -/
theorem length_of_pairsFrom {keyTokens : List Token} (h : pairsFrom keyTokens segments = some ps) :
    ps.length = segments.length ∧
      (rawExtension ps).length =
        ([Token.plain '='].intercalate (keyTokens :: segments)).length := by
  induction segments generalizing keyTokens ps with
  | nil => cases h
  | cons segment segments ih =>
    cases hsegments : segments with
    | nil =>
      subst hsegments
      cases h
      simp [List.intercalate_cons_cons]
    | cons s ss =>
      have hne : segments ≠ [] := hsegments ▸ List.cons_ne_nil _ _
      obtain ⟨value, next, ps', hcut, hrest, rfl⟩ := (pairsFrom_cons hne).mp h
      obtain ⟨rfl, -⟩ := cutLast_eq_some_iff.mp hcut
      obtain ⟨hcount, hlength⟩ := ih hrest
      rw [← hsegments]
      refine ⟨congrArg Nat.succ hcount, ?_⟩
      obtain ⟨q, qs, rfl⟩ : ∃ q qs, ps' = q :: qs :=
        List.exists_cons_of_length_pos (by rw [hcount, hsegments]; exact Nat.succ_pos _)
      rw [rawExtension_cons_cons, List.intercalate_cons_cons,
        List.intercalate_cons_of_ne_nil hne]
      rw [List.intercalate_cons_of_ne_nil hne] at hlength
      simp only [List.length_append, List.length_cons, List.length_map, List.length_nil] at hlength ⊢
      omega

theorem length_splitOn {α : Type*} [DecidableEq α] (a : α) (l : List α) :
    (l.splitOn a).length = l.count a + 1 := by
  induction l with
  | nil => rfl
  | cons x l ih =>
    rw [List.splitOn_cons_eq_if_modifyHead, List.count_cons]
    split
    · rw [List.length_cons, ih]
    · rw [List.length_modifyHead, ih, Nat.add_zero]

/-- If pieces are joined by a separator that does not occur more often, none of them has it. -/
theorem not_mem_of_count_intercalate {α : Type*} [DecidableEq α] {a : α} {pieces : List (List α)}
    (h : ([a].intercalate pieces).count a + 1 ≤ pieces.length) : ∀ piece ∈ pieces, a ∉ piece := by
  have hmin : ∀ ps : List (List α), ps.length ≤ ([a].intercalate ps).count a + 1 := by
    intro ps
    induction ps with
    | nil => exact Nat.zero_le _
    | cons p ps ih =>
      by_cases hps : ps = []
      · subst hps
        exact Nat.le_add_left ..
      · rw [List.intercalate_cons_of_ne_nil hps]
        simp only [List.length_cons, List.count_append, List.count_singleton_self]
        omega
  induction pieces with
  | nil => exact List.forall_mem_nil _
  | cons p ps ih =>
    by_cases hps : ps = []
    · subst hps
      simp only [List.length_singleton, List.intercalate_singleton] at h
      exact List.forall_mem_singleton.mpr (List.count_eq_zero.mp (by omega))
    · have hle := hmin ps
      rw [List.intercalate_cons_of_ne_nil hps] at h
      simp only [List.length_cons, List.count_append, List.count_singleton_self] at h
      exact List.forall_mem_cons.mpr ⟨List.count_eq_zero.mp (by omega), ih (by omega)⟩

theorem map_intercalate {α β : Type*} (f : α → β) (a : α) (pieces : List (List α)) :
    ([a].intercalate pieces).map f = [f a].intercalate (pieces.map (List.map f)) := by
  induction pieces with
  | nil => rfl
  | cons p ps ih =>
    by_cases hps : ps = []
    · subst hps
      simp
    · rw [List.intercalate_cons_of_ne_nil hps, List.map_cons,
        List.intercalate_cons_of_ne_nil (by simpa using hps), List.map_append, List.map_append, ih]
      rfl

theorem pairsFrom_plain (key value : List Char) {ps : List (List Char × List Char)}
    (hkeys : ∀ p ∈ ps, ' ' ∉ p.1) :
    pairsFrom (key.map .plain) ((valueSegments value ps).map (List.map Token.plain)) =
      some ((key, value) :: ps) := by
  induction ps generalizing key value with
  | nil =>
    change some [((key.map Token.plain).map Token.char, (value.map Token.plain).map Token.valueChar)]
      = _
    rw [map_char_plain, map_valueChar_plain]
  | cons p ps ih =>
    obtain ⟨key', value'⟩ := p
    obtain ⟨hkey, hkeys⟩ := List.forall_mem_cons.mp hkeys
    rw [valueSegments, List.map_cons, pairsFrom_cons (by simpa using valueSegments_ne_nil value' ps)]
    refine ⟨value.map .plain, key'.map .plain, (key', value') :: ps, ?_, ih key' value' hkeys, ?_⟩
    · rw [cutLast_eq_some_iff, List.map_append, List.map_cons]
      exact ⟨rfl, fun hmem => hkey (plain_mem_map.mp hmem)⟩
    · rw [map_char_plain, map_valueChar_plain]

/-- Without escapes the segments of an extension are read exactly if they have no equals sign. -/
theorem pairs_raw_iff (hne : extension ≠ []) (hkeys : ∀ p ∈ extension, ' ' ∉ p.1) :
    pairs ((rawExtension extension).map .plain) = some extension ↔
      ∀ p ∈ extension, '=' ∉ p.1 ∧ '=' ∉ p.2 := by
  obtain ⟨⟨key, value⟩, ps, rfl⟩ := List.exists_cons_of_ne_nil hne
  have hraw := map_intercalate Token.plain '=' (key :: valueSegments value ps)
  rw [← rawExtension_cons] at hraw
  have hsegments : (∀ piece ∈ key :: valueSegments value ps, '=' ∉ piece) ↔
      ∀ p ∈ (key, value) :: ps, '=' ∉ p.1 ∧ '=' ∉ p.2 := by
    clear hraw hkeys hne
    rw [List.forall_mem_cons, List.forall_mem_cons, and_assoc]
    refine and_congr_right fun _ => ?_
    induction ps generalizing value with
    | nil => simp [valueSegments]
    | cons p ps ih =>
      rw [valueSegments, List.forall_mem_cons, ih, List.forall_mem_cons]
      simp only [List.mem_append, List.mem_cons, not_or]
      tauto
  rw [← hsegments, pairs]
  constructor
  · intro hpairs
    split at hpairs
    · cases hpairs
    · next first segments hsplit =>
      obtain ⟨hlength, -⟩ := length_of_pairsFrom hpairs
      have hcount := congrArg List.length hsplit
      rw [length_splitOn, List.length_cons, ← hlength, hraw] at hcount
      have hplain : ∀ piece ∈ (key :: valueSegments value ps).map (List.map Token.plain),
          Token.plain '=' ∉ piece := by
        refine not_mem_of_count_intercalate ?_
        rw [hcount, List.length_map]
        exact Nat.succ_le_succ (Nat.le_of_eq (length_valueSegments value ps).symm)
      intro piece hpiece heq
      exact hplain _ (List.mem_map_of_mem hpiece) (plain_mem_map.mpr heq)
  · intro hplain
    have hfree : ∀ piece ∈ (key :: valueSegments value ps).map (List.map Token.plain),
        Token.plain '=' ∉ piece := by
      intro piece hpiece heq
      obtain ⟨piece', hpiece', rfl⟩ := List.mem_map.mp hpiece
      exact hplain piece' hpiece' (plain_mem_map.mp heq)
    rw [hraw, List.splitOn_intercalate (Token.plain '=') hfree (List.cons_ne_nil _ _)]
    exact pairsFrom_plain key value fun p hp => hkeys p (List.mem_cons_of_mem _ hp)

/-! ### Records -/

theorem split_eq_some_iff {cs : List Char} {r : Record} : split n cs = some r ↔
    ∃ rest, headerFields n (tokens cs) = some (r.header, rest) ∧ pairs rest = some r.extension := by
  simp only [split, Option.bind_eq_bind, Option.bind_eq_some_iff, Prod.exists, Option.some.injEq]
  constructor
  · rintro ⟨header, rest, hheader, extension, hpairs, rfl⟩
    exact ⟨rest, hheader, hpairs⟩
  · rintro ⟨rest, hheader, hpairs⟩
    exact ⟨r.header, rest, hheader, r.extension, hpairs, rfl⟩

/-- Every token of a message is a character of the record or a separator. -/
theorem length_tokens_of_split {cs : List Char} {r : Record} (h : split n cs = some r) :
    (tokens cs).length = r.raw.length := by
  obtain ⟨rest, hheader, hpairs⟩ := split_eq_some_iff.mp h
  rw [length_of_headerFields hheader, Record.raw, List.length_append]
  rw [pairs] at hpairs
  split at hpairs
  · cases hpairs
  · next key segments hsplit =>
    rw [(length_of_pairsFrom hpairs).2, ← hsplit, List.intercalate_splitOn]

theorem forall_raw_iff {p : Char → Prop} (hbar : p '|') (hequals : p '=') (hspace : p ' ')
    (r : Record) : (∀ c ∈ r.raw, p c) ↔ (∀ field ∈ r.header, ∀ c ∈ field, p c) ∧
      ∀ pair ∈ r.extension, (∀ c ∈ pair.1, p c) ∧ ∀ c ∈ pair.2, p c := by
  have hheader : (∀ c ∈ rawHeader r.header, p c) ↔ ∀ field ∈ r.header, ∀ c ∈ field, p c := by
    simp only [rawHeader, List.mem_flatMap, List.mem_append, List.mem_singleton]
    constructor
    · exact fun h field hfield c hc => h c ⟨field, hfield, .inl hc⟩
    · rintro h c ⟨field, hfield, hc | rfl⟩
      · exact h field hfield c hc
      · exact hbar
  have hextension (ps : List (List Char × List Char)) : (∀ c ∈ rawExtension ps, p c) ↔
      ∀ pair ∈ ps, (∀ c ∈ pair.1, p c) ∧ ∀ c ∈ pair.2, p c := by
    induction ps with
    | nil => simp [rawExtension]
    | cons pair ps ih =>
      cases ps with
      | nil =>
        rw [rawExtension_singleton, List.forall_mem_append, List.forall_mem_cons,
          List.forall_mem_singleton]
        simp [hequals]
      | cons q qs =>
        rw [rawExtension_cons_cons, List.forall_mem_append, List.forall_mem_cons,
          List.forall_mem_append, List.forall_mem_cons, ih, List.forall_mem_cons]
        simp [hequals, hspace, and_assoc]
  rw [Record.raw, List.forall_mem_append, hheader, hextension]

/-- A record that is written without escapes is read again exactly if there is nothing to escape. -/
theorem split_raw_iff {r : Record} (hne : r.extension ≠ [])
    (hkeys : ∀ pair ∈ r.extension, ' ' ∉ pair.1) :
    split r.header.length r.raw = some r ↔ r.Plain := by
  have hescape : '\\' ∉ r.raw ↔ (∀ field ∈ r.header, '\\' ∉ field) ∧
      ∀ pair ∈ r.extension, '\\' ∉ pair.1 ∧ '\\' ∉ pair.2 := by
    have hall := forall_raw_iff (p := (· ≠ '\\')) (by decide) (by decide) (by decide) r
    simpa [List.forall_mem_ne'] using hall
  have hread (h : '\\' ∉ r.raw) : split r.header.length r.raw = some r ↔
      (∀ field ∈ r.header, '|' ∉ field) ∧ ∀ p ∈ r.extension, '=' ∉ p.1 ∧ '=' ∉ p.2 := by
    rw [split_eq_some_iff, tokens_of_not_mem h, ← pairs_raw_iff hne hkeys]
    simp only [Record.raw, headerFields_raw_iff, and_assoc, exists_and_left, exists_eq_left]
  constructor
  · intro h
    have hno : '\\' ∉ r.raw := not_mem_of_length_tokens <|
      Nat.le_of_eq (length_tokens_of_split h).symm
    obtain ⟨hheader, hextension⟩ := (hread hno).mp h
    obtain ⟨hheader', hextension'⟩ := hescape.mp hno
    refine ⟨fun field hfield => ⟨hheader field hfield, hheader' field hfield⟩, fun pair hpair => ?_⟩
    exact ⟨⟨(hextension pair hpair).1, (hextension' pair hpair).1⟩,
      (hextension pair hpair).2, (hextension' pair hpair).2⟩
  · intro h
    have hno : '\\' ∉ r.raw := hescape.mpr ⟨fun field hfield => (h.header field hfield).2,
      fun pair hpair => ⟨(h.extension pair hpair).1.2, (h.extension pair hpair).2.2⟩⟩
    exact (hread hno).mpr ⟨fun field hfield => (h.header field hfield).1,
      fun pair hpair => ⟨(h.extension pair hpair).1.1, (h.extension pair hpair).2.1⟩⟩

theorem fieldText_iff {cs : List Char} :
    FieldText cs ↔ (∀ c ∈ cs, c ≠ '\n' ∧ c ≠ '\r') ∧ '|' ∉ cs ∧ '\\' ∉ cs := by
  simp only [FieldText, List.mem_cons, List.not_mem_nil, or_false, not_or]
  constructor
  · intro h
    exact ⟨fun c hc => (h c hc).2.2, fun hbar => (h _ hbar).1 rfl, fun hback => (h _ hback).2.1 rfl⟩
  · rintro ⟨hline, hbar, hback⟩ c hc
    exact ⟨fun heq => hbar (heq ▸ hc), fun heq => hback (heq ▸ hc), hline c hc⟩

theorem valueText_iff {cs : List Char} :
    ValueText cs ↔ (∀ c ∈ cs, c ≠ '\n' ∧ c ≠ '\r') ∧ '=' ∉ cs ∧ '\\' ∉ cs := by
  simp only [ValueText, List.mem_cons, List.not_mem_nil, or_false, not_or]
  constructor
  · intro h
    exact ⟨fun c hc => (h c hc).2.2, fun hequals => (h _ hequals).1 rfl,
      fun hback => (h _ hback).2.1 rfl⟩
  · rintro ⟨hline, hequals, hback⟩ c hc
    exact ⟨fun heq => hequals (heq ▸ hc), fun heq => hback (heq ▸ hc), hline c hc⟩

/-- The text is one line and reads as the record exactly if no field and no pair needs an escape. -/
theorem one_line_split_raw_iff {r : Record} (hne : r.extension ≠ [])
    (hkeys : ∀ pair ∈ r.extension, ' ' ∉ pair.1) :
    (∀ c ∈ r.raw, c ≠ '\n' ∧ c ≠ '\r') ∧ split r.header.length r.raw = some r ↔
      (∀ field ∈ r.header, FieldText field) ∧
        ∀ pair ∈ r.extension, ValueText pair.1 ∧ ValueText pair.2 := by
  rw [split_raw_iff hne hkeys, forall_raw_iff (by decide) (by decide) (by decide)]
  simp only [fieldText_iff, valueText_iff]
  constructor
  · rintro ⟨⟨hheader, hextension⟩, hplain⟩
    refine ⟨fun field hfield => ⟨hheader field hfield, hplain.header field hfield⟩,
      fun pair hpair => ?_⟩
    obtain ⟨hkey, hvalue⟩ := hplain.extension pair hpair
    exact ⟨⟨(hextension pair hpair).1, hkey⟩, (hextension pair hpair).2, hvalue⟩
  · rintro ⟨hheader, hextension⟩
    refine ⟨⟨fun field hfield => (hheader field hfield).1, fun pair hpair => ?_⟩,
      fun field hfield => (hheader field hfield).2, fun pair hpair => ?_⟩
    · exact ⟨(hextension pair hpair).1.1, (hextension pair hpair).2.1⟩
    · exact ⟨(hextension pair hpair).1.2, (hextension pair hpair).2.2⟩

end KirkForge.Cef
