import KirkForge.Theory.Text
import Mathlib.Data.List.Infix
import Mathlib.Data.List.TakeWhile

/-!
# Scanning

Regular expressions that need no general matcher. The fragment of case-insensitive ones made of
literal characters, optional characters, `.*` and `\b`: a pattern is a sequence of atoms, and
`search` looks for an occurrence of one of several patterns anywhere in a text, between two word
boundaries. And the pieces that are read without a choice: a keyword, and a class that is repeated
as often as it goes. A repetition that takes as much as it can is the only one to be tried if what
comes behind it is not of the class.
-/

/-! ### Search patterns -/

namespace KirkForge

inductive Atom
  | char (c : Char)
  | optional (c : Char)
  | anyStar
  | boundary
  deriving DecidableEq, Repr

abbrev Pattern := List Atom

namespace Pattern

def literal (s : String) : Pattern := s.toList.map .char

def isWordChar (c : Char) : Bool := c.isAlphanum || c == '_'

/-- `\b` between the characters `prev` and `next`. -/
def isBoundary (prev next : Option Char) : Bool :=
  prev.any isWordChar != next.any isWordChar

def isLineTerminator (c : Char) : Bool := c.toNat ∈ [0x0A, 0x0D, 0x2028, 0x2029]

/-- `.*` followed by what `k` accepts. -/
def anyStarThen (k : Option Char → List Char → Bool) (prev : Option Char) : List Char → Bool
  | [] => k prev []
  | c :: cs => k prev (c :: cs) || (!isLineTerminator c && anyStarThen k (some c) cs)

/-- Whether the text that follows the character `prev` starts with the pattern. -/
def matchesAt : Pattern → Option Char → List Char → Bool
  | [], _, _ => true
  | .char a :: p, _, cs =>
    match cs with
    | [] => false
    | c :: cs => c.toLower == a.toLower && matchesAt p (some c) cs
  | .optional a :: p, prev, cs =>
    matchesAt p prev cs ||
      match cs with
      | [] => false
      | c :: cs => c.toLower == a.toLower && matchesAt p (some c) cs
  | .anyStar :: p, prev, cs => anyStarThen (matchesAt p) prev cs
  | .boundary :: p, prev, cs => isBoundary prev cs.head? && matchesAt p prev cs

def searchFrom (ps : List Pattern) (prev : Option Char) (cs : List Char) : Bool :=
  ps.any (fun p => matchesAt ([.boundary] ++ p ++ [.boundary]) prev cs) ||
    match cs with
    | [] => false
    | c :: cs => searchFrom ps (some c) cs

/-- `/\b(?:p₁|…|pₙ)\b/i.test(text)`. -/
def search (ps : List Pattern) (text : String) : Bool := searchFrom ps none text.toList

end Pattern

end KirkForge

/-! ### Pieces that are read without a choice -/

namespace KirkForge.Scan

/-- The rest after the keyword. -/
def keyword (k : String) (cs : List Char) : Option (List Char) := cs.dropPrefix? k.toList

/-- `p*`: what it takes and the rest. -/
def many (p : Char → Bool) (cs : List Char) : List Char × List Char :=
  (cs.takeWhile p, cs.dropWhile p)

/-- `p+` -/
def many1 (p : Char → Bool) (cs : List Char) : Option (List Char × List Char) :=
  if cs.takeWhile p = [] then none else some (many p cs)

/-- The first place, and what comes before it, where the reader succeeds. -/
def search {α : Type} (reader : Option Char → List Char → Option α) (prev : Option Char) :
    List Char → Option α
  | [] => reader prev []
  | c :: cs => (reader prev (c :: cs)).or (search reader (some c) cs)

variable {k : String} {p : Char → Bool} {cs xs rest : List Char}

theorem keyword_iff : keyword k cs = some rest ↔ cs = k.toList ++ rest := by
  rw [keyword, List.dropPrefix?_eq_some_iff]
  constructor
  · rintro ⟨front, rfl, hfront⟩
    rw [eq_of_beq hfront]
  · intro h
    exact ⟨k.toList, h, BEq.rfl⟩

theorem many_spec (p : Char → Bool) (cs : List Char) :
    cs = (many p cs).1 ++ (many p cs).2 ∧ ∀ c ∈ (many p cs).1, p c = true :=
  ⟨List.takeWhile_append_dropWhile.symm, fun _ hc => List.mem_takeWhile_imp hc⟩

theorem many1_spec (h : many1 p cs = some (xs, rest)) :
    cs = xs ++ rest ∧ xs ≠ [] ∧ ∀ x ∈ xs, p x = true := by
  rw [many1] at h
  split at h
  · cases h
  next hne =>
  obtain ⟨rfl, rfl⟩ := Prod.mk.inj (Option.some.inj h)
  obtain ⟨heq, hall⟩ := many_spec p cs
  exact ⟨heq, hne, hall⟩

/-- What is of the class is taken whole if something else comes behind. -/
theorem many_append (hxs : ∀ x ∈ xs, p x = true) {c : Char} (hc : p c = false) (rest : List Char) :
    many p (xs ++ c :: rest) = (xs, c :: rest) := by
  rw [many, List.takeWhile_append_of_pos hxs, List.dropWhile_append_of_pos hxs]
  simp [hc]

theorem many1_append (hne : xs ≠ []) (hxs : ∀ x ∈ xs, p x = true) {c : Char} (hc : p c = false)
    (rest : List Char) : many1 p (xs ++ c :: rest) = some (xs, c :: rest) := by
  have hmany := many_append hxs hc rest
  have htake : (xs ++ c :: rest).takeWhile p = xs := congrArg Prod.fst hmany
  rw [many1, hmany, htake, if_neg hne]

/-- What a class and a keyword read does not change with what comes behind a character at which they
stop. -/
theorem many_append_stop {c : Char} (hc : p c = false) (cs t : List Char) :
    many p (cs ++ c :: t) = ((many p cs).1, (many p cs).2 ++ c :: t) := by
  induction cs with
  | nil => simp [many, hc]
  | cons d cs ih =>
    simp only [many, List.cons_append, List.takeWhile_cons, List.dropWhile_cons] at ih ⊢
    split
    · rw [(Prod.mk.inj ih).1, (Prod.mk.inj ih).2]
    · rfl

theorem many1_append_stop {c : Char} (hc : p c = false) (cs t : List Char) :
    many1 p (cs ++ c :: t) = (many1 p cs).map fun r => (r.1, r.2 ++ c :: t) := by
  have hmany := many_append_stop hc cs t
  have htake : (cs ++ c :: t).takeWhile p = cs.takeWhile p := (Prod.mk.inj hmany).1
  rw [many1, many1, hmany, htake]
  split <;> rfl

theorem keyword_append_stop {c : Char} (hc : c ∉ k.toList) (cs t : List Char) :
    keyword k (cs ++ c :: t) = (keyword k cs).map (· ++ c :: t) := by
  refine Option.ext fun rest => ?_
  rw [keyword_iff, Option.map_eq_some_iff]
  constructor
  · intro h
    obtain ⟨a, ha, hrest⟩ | ⟨a, ha, hrest⟩ := List.append_eq_append_iff.mp h
    · cases a with
      | nil => exact ⟨[], keyword_iff.mpr (by rw [ha]; simp), hrest⟩
      | cons d a =>
        obtain rfl := (List.cons.inj hrest).1
        exact absurd (by rw [ha]; exact List.mem_append_right _ List.mem_cons_self) hc
    · exact ⟨a, keyword_iff.mpr ha, hrest.symm⟩
  · rintro ⟨rest, h, rfl⟩
    rw [keyword_iff.mp h, List.append_assoc]

/-- White space is no part of a word. -/
theorem not_isWordChar {c : Char} (h : Text.isWhitespace c = true) :
    Pattern.isWordChar c = false := by
  have hcode : c.toNat ≤ 0x20 ∨ 0x7F < c.toNat := by
    simp [Text.isWhitespace] at h
    omega
  have hne : c ≠ '_' := by
    rintro rfl
    revert hcode
    decide
  have hcode' : c.val.toNat ≤ 0x20 ∨ 0x7F < c.val.toNat := hcode
  delta Pattern.isWordChar Char.isAlphanum Char.isAlpha Char.isUpper Char.isLower Char.isDigit
  simp [UInt32.le_iff_toNat_le, hne]
  omega

/-- The character before a place: the last one in front of it. -/
def before (prev : Option Char) (front : List Char) : Option Char := front.getLast?.or prev

theorem before_cons (prev : Option Char) (c : Char) (front : List Char) :
    before prev (c :: front) = before (some c) front := by
  cases h : front.getLast? with
  | none =>
    rw [List.getLast?_eq_none_iff] at h
    rw [h]
    rfl
  | some d => simp [before, List.getLast?_cons, h]

/-- A search succeeds if and only if the reader does so somewhere in the text. -/
theorem search_isSome {α : Type} {reader : Option Char → List Char → Option α}
    {prev : Option Char} {cs : List Char} : (search reader prev cs).isSome = true ↔
      ∃ front back, cs = front ++ back ∧ (reader (before prev front) back).isSome = true := by
  induction cs generalizing prev with
  | nil =>
    constructor
    · intro h
      exact ⟨[], [], rfl, h⟩
    · rintro ⟨front, back, heq, h⟩
      obtain ⟨rfl, rfl⟩ := List.append_eq_nil_iff.mp heq.symm
      exact h
  | cons c cs ih =>
    rw [search, Option.isSome_or, Bool.or_eq_true, ih]
    constructor
    · rintro (h | ⟨front, back, rfl, h⟩)
      · exact ⟨[], c :: cs, rfl, h⟩
      · refine ⟨c :: front, back, rfl, ?_⟩
        rw [before_cons]
        exact h
    · rintro ⟨front, back, heq, h⟩
      cases front with
      | nil =>
        obtain rfl : c :: cs = back := heq
        exact .inl h
      | cons d front =>
        obtain ⟨rfl, rfl⟩ := List.cons.inj heq
        rw [before_cons] at h
        exact .inr ⟨front, back, rfl, h⟩

end KirkForge.Scan

/-!
## Readings from left to right

A reader is tried at every place of a text and may read what stands there. `readings` is everything
that it reads, each behind the one before: what a loop around a global regular expression finds. The
reader may look at a state that has followed the characters before the place. The readings of a text
are those of a front and those of the rest, if none that counts goes over the place between them
(`readings_append`). A reader that reads a part of what another one reads has these readings, if it
reads nothing inside the others (`readings_filter`).
-/

namespace KirkForge.Scan

variable {σ α : Type*}

/-- The first `skip` characters belong to what was read last. -/
def readings (next : σ → Char → σ) (reader : σ → List Char → Option (α × List Char)) :
    (skip : Nat) → σ → List Char → List α
  | _, _, [] => []
  | skip + 1, s, c :: cs => readings next reader skip (next s c) cs
  | 0, s, c :: cs =>
    match reader s (c :: cs) with
    | none => readings next reader 0 (next s c) cs
    | some (a, rest) => a :: readings next reader (cs.length - rest.length) (next s c) cs

variable {next : σ → Char → σ} {reader : σ → List Char → Option (α × List Char)}

theorem readings_length (s : σ) (x t : List Char) :
    readings next reader x.length s (x ++ t) = readings next reader 0 (x.foldl next s) t := by
  induction x generalizing s with
  | nil => rfl
  | cons c x ih => exact ih (next s c)

/-- Where nothing is read, the next place is tried. -/
theorem readings_cons_of_none {s : σ} {c : Char} {cs : List Char} (h : reader s (c :: cs) = none) :
    readings next reader 0 s (c :: cs) = readings next reader 0 (next s c) cs := by
  rw [readings, h]

/-- Behind a reading the next one is looked for. -/
theorem readings_of_some {s : σ} {x t : List Char} {a : α} (hx : x ≠ [])
    (h : reader s (x ++ t) = some (a, t)) :
    readings next reader 0 s (x ++ t) = a :: readings next reader 0 (x.foldl next s) t := by
  cases x with
  | nil => exact absurd rfl hx
  | cons c x =>
    rw [List.cons_append] at h ⊢
    rw [readings, h]
    simp only [List.length_append, Nat.add_sub_cancel, readings_length]
    rfl

/-- A front at whose places nothing is read. -/
theorem readings_append_of_none {t : List Char} (x : List Char) (s : σ)
    (h : ∀ front c back, x = front ++ c :: back →
      reader (front.foldl next s) (c :: back ++ t) = none) :
    readings next reader 0 s (x ++ t) = readings next reader 0 (x.foldl next s) t := by
  induction x generalizing s with
  | nil => rfl
  | cons c x ih =>
    have hfirst : reader s (c :: (x ++ t)) = none := h [] c x rfl
    rw [List.cons_append, readings_cons_of_none hfirst]
    exact ih (next s c) fun front c' back hsplit => h (c :: front) c' back (by rw [hsplit]; rfl)

/-- What is read where an invariant of the state holds. -/
theorem forall_mem_readings (good : σ → Prop) {fine : α → Prop}
    (hread : ∀ s cs a rest, good s → reader s cs = some (a, rest) → fine a) (text : List Char) :
    ∀ skip s, (∀ s, ∀ c ∈ text, good s → good (next s c)) → good s →
      ∀ a ∈ readings next reader skip s text, fine a := by
  induction text with
  | nil =>
    intro skip s _ _ a ha
    cases ha
  | cons c text ih =>
    intro skip s hnext hs
    have htail : ∀ s, ∀ c' ∈ text, good s → good (next s c') := fun s c' hc' =>
      hnext s c' (List.mem_cons_of_mem c hc')
    have hs' := hnext s c List.mem_cons_self hs
    cases skip with
    | succ skip => exact ih skip _ htail hs'
    | zero =>
      rw [readings]
      split
      · exact ih 0 _ htail hs'
      · next a rest h =>
        exact List.forall_mem_cons.mpr ⟨hread s _ a rest hs h, ih _ _ htail hs'⟩

/-- A reader reads something that stands at the place. -/
def Sound (reader : σ → List Char → Option (α × List Char)) : Prop :=
  ∀ s cs a rest, reader s cs = some (a, rest) → ∃ x, x ≠ [] ∧ cs = x ++ rest

/-- The readings of a front are not changed by what follows, and those of the whole text that count
do not go over the end of the front. -/
structure Divides (reader : σ → List Char → Option (α × List Char)) (counts : α → Prop)
    (t : List Char) : Prop where
  extend : ∀ s x a rest, reader s x = some (a, rest) → reader s (x ++ t) = some (a, rest ++ t)
  within : ∀ s x a rest, x ≠ [] → reader s (x ++ t) = some (a, rest) → counts a →
    ∃ rest', reader s x = some (a, rest') ∧ rest = rest' ++ t

theorem readings_append (hsound : Sound reader) {counts : α → Prop} {t : List Char}
    (hdivides : Divides reader counts t) (n : Nat) : ∀ l s, l.length = n →
      (∀ a ∈ readings next reader 0 s (l ++ t), counts a) →
      readings next reader 0 s (l ++ t) =
        readings next reader 0 s l ++ readings next reader 0 (l.foldl next s) t := by
  induction n using Nat.strong_induction_on with
  | _ n ih =>
    intro l s hn hcounts
    cases l with
    | nil => rfl
    | cons c l =>
      have hlt : l.length < n := by
        rw [← hn]
        exact Nat.lt_succ_self _
      cases hread : reader s ((c :: l) ++ t) with
      | none =>
        have hnone : reader s (c :: l) = none := by
          rw [Option.eq_none_iff_forall_not_mem]
          intro r hr
          rw [hdivides.extend s _ r.1 r.2 hr] at hread
          cases hread
        rw [List.cons_append] at hread hcounts ⊢
        rw [readings_cons_of_none hread] at hcounts ⊢
        rw [readings_cons_of_none hnone]
        exact ih l.length hlt l (next s c) rfl hcounts
      | some r =>
        obtain ⟨a, rest⟩ := r
        obtain ⟨x, hx, hsplit⟩ := hsound _ _ _ _ hread
        have ha : counts a := by
          rw [hsplit] at hread hcounts
          rw [readings_of_some hx hread] at hcounts
          exact hcounts a List.mem_cons_self
        obtain ⟨rest', hfront, rfl⟩ := hdivides.within s _ a rest (List.cons_ne_nil c l) hread ha
        obtain ⟨x', hx', hsplit'⟩ := hsound _ _ _ _ hfront
        rw [hsplit', List.append_assoc] at hread hcounts ⊢
        rw [hsplit'] at hfront hn
        rw [readings_of_some hx' hread] at hcounts ⊢
        rw [readings_of_some hx' hfront, List.cons_append, List.foldl_append]
        have hlt' : rest'.length < n := by
          have hpos := List.length_pos_iff.mpr hx'
          rw [List.length_append] at hn
          omega
        exact congrArg (a :: ·) (ih rest'.length hlt' rest' _ rfl fun b hb =>
          hcounts b (List.mem_cons_of_mem a hb))

variable {τ β : Type*} {next' : τ → Char → τ} {reader' : τ → List Char → Option (β × List Char)}

/-- Readers that read the same behind states that are related. -/
theorem readings_map (R : σ → τ → Prop) {g : α → β} (text : List Char)
    (hnext : ∀ s t, ∀ c ∈ text, R s t → R (next s c) (next' t c))
    (hread : ∀ s t cs, cs <:+ text → R s t →
      reader' t cs = (reader s cs).map fun r => (g r.1, r.2)) :
    ∀ skip s t, R s t →
      readings next' reader' skip t text = (readings next reader skip s text).map g := by
  induction text with
  | nil =>
    intro skip s t _
    cases skip <;> rfl
  | cons c text ih =>
    intro skip s t hR
    have hstep := hnext s t c List.mem_cons_self hR
    have htail := ih (fun s t d hd => hnext s t d (List.mem_cons_of_mem c hd)) fun s t cs hcs =>
      hread s t cs (hcs.trans (List.suffix_cons c text))
    cases skip with
    | succ skip => exact htail skip _ _ hstep
    | zero =>
      have hsame := hread s t (c :: text) List.suffix_rfl hR
      rw [readings, readings, hsame]
      cases reader s (c :: text) with
      | none => exact htail 0 _ _ hstep
      | some r => exact congrArg (g r.1 :: ·) (htail _ _ _ hstep)

/-- A reader that reads what `counts` of another reader's readings, if nothing else is read inside
one of these. -/
theorem readings_filter {reader' : σ → List Char → Option (β × List Char)} {counts : α → Bool}
    {g : α → β} (good : σ → Prop) {fine : α → Prop} (hsound : Sound reader)
    (hnext : ∀ s c, good s → good (next s c))
    (hread : ∀ s cs, good s →
      reader' s cs = ((reader s cs).filter (counts ·.1)).map fun r => (g r.1, r.2))
    (hinside : ∀ s x rest a, good s → reader s (x ++ rest) = some (a, rest) → counts a = false →
      fine a → ∀ front c back, front ≠ [] → x = front ++ c :: back →
        reader' (front.foldl next s) (c :: back ++ rest) = none) (n : Nat) :
    ∀ text s, text.length = n → good s → (∀ a ∈ readings next reader 0 s text, fine a) →
      readings next reader' 0 s text = ((readings next reader 0 s text).filter counts).map g := by
  have hgood (x : List Char) : ∀ s, good s → good (x.foldl next s) := by
    induction x with
    | nil => exact fun s hs => hs
    | cons c x ih => exact fun s hs => ih _ (hnext s c hs)
  induction n using Nat.strong_induction_on with
  | _ n ih =>
    intro text s hn hs hfine
    cases text with
    | nil => rfl
    | cons c text =>
      have hlt : text.length < n := by
        rw [← hn]
        exact Nat.lt_succ_self _
      have hhere := hread s (c :: text) hs
      cases hreader : reader s (c :: text) with
      | none =>
        rw [hreader] at hhere
        rw [readings_cons_of_none hreader] at hfine ⊢
        rw [readings_cons_of_none hhere]
        exact ih text.length hlt text _ rfl (hnext s c hs) hfine
      | some r =>
        obtain ⟨a, rest⟩ := r
        obtain ⟨x, hx, hsplit⟩ := hsound _ _ _ _ hreader
        rw [hreader] at hhere
        have hlater : rest.length < n := by
          have hpos := List.length_pos_iff.mpr hx
          rw [hsplit, List.length_append] at hn
          omega
        rw [hsplit] at hreader hhere hfine ⊢
        rw [readings_of_some hx hreader] at hfine ⊢
        obtain ⟨ha, hrest⟩ := List.forall_mem_cons.mp hfine
        have hbehind := ih rest.length hlater rest _ rfl (hgood x s hs) hrest
        cases hcounts : counts a with
        | true =>
          have hsome : reader' s (x ++ rest) = some (g a, rest) := by
            simpa [Option.filter, hcounts] using hhere
          rw [readings_of_some hx hsome, List.filter_cons_of_pos hcounts, hbehind]
          rfl
        | false =>
          have hnothing : reader' s (x ++ rest) = none := by
            simpa [Option.filter, hcounts] using hhere
          have hnone : ∀ front c back, x = front ++ c :: back →
              reader' (front.foldl next s) (c :: back ++ rest) = none := by
            intro front d back hx'
            cases front with
            | nil =>
              rw [hx'] at hnothing
              exact hnothing
            | cons e front =>
              exact hinside s x rest a hs hreader hcounts ha _ d back (List.cons_ne_nil e front) hx'
          rw [readings_append_of_none x s hnone, hbehind,
            List.filter_cons_of_neg (by simp [hcounts])]

end KirkForge.Scan

/-!
## Keywords at the end of a line

The search for the first occurrence of a keyword behind which only allowed entries stand up to the
end, as the regular expression `/keyword[allowed]*$/` does it. If no proper part at the end of the
keyword is a part at its front, then occurrences do not overlap, and a keyword that is appended to
a text in which none is found is found where it was appended.
-/

namespace KirkForge.Text

variable {α : Type*} [DecidableEq α]

/-- What follows the first occurrence of the keyword with nothing but allowed entries behind it. -/
def trailing (allowed : α → Bool) (keyword : List α) : List α → Option (List α)
  | [] => if keyword = [] then some [] else none
  | a :: l =>
    if keyword <+: a :: l ∧ ((a :: l).drop keyword.length).all allowed = true then
      some ((a :: l).drop keyword.length)
    else trailing allowed keyword l

/-- No proper part at the end of the keyword is a part at its front. -/
def Unbordered (keyword : List α) : Prop :=
  ∀ i < keyword.length, 0 < i → ¬keyword.drop i <+: keyword

instance (keyword : List α) : Decidable (Unbordered keyword) :=
  inferInstanceAs (Decidable (∀ i < keyword.length, 0 < i → ¬keyword.drop i <+: keyword))

variable {allowed : α → Bool} {keyword : List α}

theorem trailing_keyword_append (hkeyword : keyword ≠ []) {rest : List α}
    (h : rest.all allowed = true) : trailing allowed keyword (keyword ++ rest) = some rest := by
  obtain ⟨a, k, rfl⟩ := List.exists_cons_of_ne_nil hkeyword
  rw [List.cons_append, trailing, ← List.cons_append, List.drop_left,
    if_pos ⟨List.prefix_append .., h⟩]

/-- The keyword does not begin within a front in which it is not found. -/
theorem not_prefix_append (hborder : Unbordered keyword) {front rest : List α} (hfront : front ≠ [])
    (hnone : trailing allowed keyword front = none)
    (hall : ((front ++ (keyword ++ rest)).drop keyword.length).all allowed = true) :
    ¬keyword <+: front ++ (keyword ++ rest) := by
  intro hstart
  rcases Nat.lt_or_ge front.length keyword.length with hlen | hlen
  · obtain ⟨back, hback⟩ := List.prefix_of_prefix_length_le (List.prefix_append front _) hstart
      (Nat.le_of_lt hlen)
    refine hborder front.length hlen (List.length_pos_of_ne_nil hfront) ?_
    have hback' : back <+: keyword ++ rest := by
      refine (List.prefix_append_right_inj front).mp ?_
      rw [hback]
      exact hstart
    have hdrop : keyword.drop front.length = back := by rw [← hback, List.drop_left]
    rw [hdrop]
    refine List.prefix_of_prefix_length_le hback' (List.prefix_append keyword rest) ?_
    rw [← hback, List.length_append]
    exact Nat.le_add_left ..
  · obtain ⟨back, rfl⟩ := List.prefix_of_prefix_length_le hstart (List.prefix_append front _) hlen
    rw [List.append_assoc, List.drop_left, List.all_append, Bool.and_eq_true] at hall
    have hkeyword : keyword ≠ [] := by
      rintro rfl
      cases back with
      | nil => exact hfront rfl
      | cons a back =>
        rw [List.nil_append, trailing, if_pos ⟨ List.nil_prefix, hall.1⟩] at hnone
        cases hnone
    rw [trailing_keyword_append hkeyword hall.1] at hnone
    cases hnone

/-- A keyword that is appended to a text in which none is found. -/
theorem trailing_append_keyword (hborder : Unbordered keyword) (hkeyword : keyword ≠ [])
    {front rest : List α} (hnone : trailing allowed keyword front = none)
    (h : rest.all allowed = true) :
    trailing allowed keyword (front ++ (keyword ++ rest)) = some rest := by
  induction front with
  | nil => exact trailing_keyword_append hkeyword h
  | cons a front ih =>
    have hlater : trailing allowed keyword front = none := by
      rw [trailing] at hnone
      split at hnone
      · cases hnone
      · exact hnone
    rw [List.cons_append, trailing, ← List.cons_append, if_neg, ih hlater]
    rintro ⟨hstart, hall⟩
    exact not_prefix_append hborder (List.cons_ne_nil a front) hnone hall hstart

end KirkForge.Text
