import KirkForge.Theory.Lists
import KirkForge.Theory.Occurrence
import KirkForge.ToolLintImports.ImportForms

/-!
# What the patterns match

At a place on a line the patterns match the imports that are regular: one of them those with a word
before their specifier or a parenthesis (`wordAt_eq`), the other one those without names
(`sideEffectAt_eq`). Inside an import neither matches anything, if its specifier does not end like
the beginning of another import (`not_isWorded_inside`, `not_isBare_inside`).
-/

namespace KirkForge.ImportLint

open Scan

/-! ### What the patterns match -/

variable {cs rest specifier : List Char} {f : ImportForm} {prev : Option Char}

/-- As much white space as the patterns expect. -/
structure ImportForm.Tight (f : ImportForm) : Prop extends f.WellFormed where
  spaced : f.gap = [] ↔ f.kind.isCall = true

theorem ImportForm.WellFormed.literal_quoted (hf : f.WellFormed) (rest : List Char) :
    literal (f.quoted ++ rest) = some (f.specifier, rest) :=
  literal_eq_some_iff.mpr ⟨f.opening, f.closing,
    ⟨hf.opening, hf.closing, hf.nonempty, fun c hc => (hf.unquoted c hc).1⟩,
    by simp [ImportForm.quoted]⟩

theorem many_append_quoted {gap : List Char} (hf : f.WellFormed)
    (hgap : ∀ c ∈ gap, Text.isWhitespace c = true) (rest : List Char) :
    many Text.isWhitespace (gap ++ (f.quoted ++ rest)) = (gap, f.quoted ++ rest) :=
  many_isWhitespace hgap (not_isWhitespace_of_isQuote hf.opening) _

/-- White space and what a pattern takes for a specifier. -/
theorem exists_quoted_of_literal (gap : List Char) (hgap : ∀ c ∈ gap, Text.isWhitespace c = true)
    (h : literal cs = some (specifier, rest)) (hline : '\n' ∉ cs) (kind : ImportKind)
    (outer : List Char) (houter : ∀ c ∈ outer, Text.isWhitespace c = true)
    (hcall : kind.isCall = false → gap = []) :
    ∃ f : ImportForm, f.WellFormed ∧ f.kind = kind ∧ f.gap = outer ∧ f.inner = gap ∧
      f.specifier = specifier ∧ cs = f.quoted ++ rest := by
  obtain ⟨q, q', ⟨hq, hq', hne, hall⟩, rfl⟩ := literal_eq_some_iff.mp h
  have hunquoted : ∀ c ∈ specifier, isQuote c = false ∧ c ≠ '\n' := by
    refine fun c hc => ⟨hall c hc, ?_⟩
    rintro rfl
    exact hline (List.mem_append_left _ (List.mem_cons_of_mem q hc))
  exact ⟨⟨kind, outer, gap, q, specifier, q'⟩,
    ⟨houter, hgap, hcall, hq, hq', hne, hunquoted⟩, rfl, rfl, rfl, rfl, by simp [ImportForm.quoted]⟩

theorem RE_JS_IMPORT_of_tight (hf : f.Tight) (hkind : f.kind ≠ .sideEffect)
    (h : Pattern.isBoundary prev (f.text ++ rest).head? = true) :
    RE_JS_IMPORT prev (f.text ++ rest) = some (f.specifier, rest) := by
  have hliteral := hf.literal_quoted rest
  rw [RE_JS_IMPORT, if_pos h]
  cases hk : f.kind with
  | sideEffect => exact absurd hk hkind
  | static =>
    have hgap : f.gap ≠ [] := fun hnil => by
      have hcall := hf.spaced.mp hnil
      rw [hk] at hcall
      cases hcall
    have hword : keyword "from" (f.text ++ rest) = some (f.gap ++ (f.quoted ++ rest)) := by
      rw [keyword_iff, f.text_append_of_direct (by rw [hk]; rfl), hk, List.append_assoc]
      rfl
    have hmany : many1 Text.isWhitespace (f.gap ++ (f.quoted ++ rest)) =
        some (f.gap, f.quoted ++ rest) :=
      many1_append hgap hf.gap (not_isWhitespace_of_isQuote hf.opening) _
    rw [hword, Option.bind_some, spacedLiteral, hmany, Option.bind_some, hliteral]
    rfl
  | require =>
    have hgap : f.gap = [] := hf.spaced.mpr (by rw [hk]; rfl)
    have hfrom : keyword "from" (f.text ++ rest) = none := by
      rw [ImportForm.text, hk]
      rfl
    have hword : keyword "require(" (f.text ++ rest) = some (f.inner ++ (f.quoted ++ rest)) := by
      rw [keyword_iff, f.text_append_of_call (by rw [hk]; rfl), hk, hgap]
      simp [ImportKind.word]
    rw [hfrom, hword, Option.bind_some, argument, many_append_quoted hf.toWellFormed hf.inner,
      hliteral]
    rfl
  | dynamic =>
    have hgap : f.gap = [] := hf.spaced.mpr (by rw [hk]; rfl)
    have hfrom : keyword "from" (f.text ++ rest) = none := by
      rw [ImportForm.text, hk]
      rfl
    have hrequire : keyword "require(" (f.text ++ rest) = none := by
      rw [ImportForm.text, hk]
      rfl
    have hword : keyword "import(" (f.text ++ rest) = some (f.inner ++ (f.quoted ++ rest)) := by
      rw [keyword_iff, f.text_append_of_call (by rw [hk]; rfl), hk, hgap]
      simp [ImportKind.word]
    rw [hfrom, hrequire, hword, Option.bind_some, argument,
      many_append_quoted hf.toWellFormed hf.inner, hliteral]
    rfl

/-- What `\s*` and a literal take behind a word with a parenthesis is a call. -/
theorem exists_call_of_argument (kind : ImportKind) {after : List Char} (hkind : kind.isCall = true)
    (hline : '\n' ∉ cs) (hword : cs = kind.word.toList ++ '(' :: after)
    (h : argument after = some (specifier, rest)) :
    ∃ f : ImportForm, f.Tight ∧ f.kind = kind ∧ f.specifier = specifier ∧
      cs = f.text ++ rest := by
  obtain ⟨hsplit, hinner⟩ := many_spec Text.isWhitespace after
  rw [argument] at h
  generalize many Text.isWhitespace after = m at hsplit hinner h
  rw [hword, hsplit] at hline
  obtain ⟨f, hf, rfl, hgap, hin, rfl, hquoted⟩ := exists_quoted_of_literal _ hinner h
    (fun hm => hline (by simp [hm])) kind [] nofun fun hcall => by rw [hkind] at hcall; cases hcall
  refine ⟨f, ⟨hf, by rw [hgap, hkind]; simp⟩, rfl, rfl, ?_⟩
  rw [hword, hsplit, hquoted, f.text_append_of_call hkind, hgap, hin]
  simp

theorem exists_direct_of_spacedLiteral (kind : ImportKind) {after : List Char}
    (hkind : kind.isCall = false) (hline : '\n' ∉ cs) (hword : cs = kind.word.toList ++ after)
    (h : spacedLiteral after = some (specifier, rest)) :
    ∃ f : ImportForm, f.Tight ∧ f.kind = kind ∧ f.specifier = specifier ∧
      cs = f.text ++ rest := by
  obtain ⟨⟨gap, behind⟩, hgap, h⟩ := Option.bind_eq_some_iff.mp h
  obtain ⟨hsplit, hne, hall⟩ := many1_spec hgap
  rw [hword, hsplit] at hline
  obtain ⟨f, hf, rfl, hgap, hin, rfl, hquoted⟩ := exists_quoted_of_literal [] nofun h
    (fun hm => hline (by simp [hm])) kind gap hall fun _ => rfl
  refine ⟨f, ⟨hf, by rw [hgap, hkind]; simp [hne]⟩, rfl, rfl, ?_⟩
  dsimp only at hquoted
  rw [hword, hsplit, hquoted, f.text_append_of_direct hkind, hgap]
  simp

theorem exists_tight_of_RE_JS_IMPORT (hline : '\n' ∉ cs)
    (h : RE_JS_IMPORT prev cs = some (specifier, rest)) :
    Pattern.isBoundary prev cs.head? = true ∧ ∃ f : ImportForm, f.Tight ∧ f.kind ≠ .sideEffect ∧
      f.specifier = specifier ∧ cs = f.text ++ rest := by
  rw [RE_JS_IMPORT] at h
  split at h
  · next hboundary =>
    refine ⟨hboundary, ?_⟩
    obtain h | ⟨-, h⟩ := Option.or_eq_some_iff.mp h
    · obtain ⟨after, hword, h⟩ := Option.bind_eq_some_iff.mp h
      obtain ⟨f, hf, hkind, hspec, hcs⟩ :=
        exists_direct_of_spacedLiteral .static rfl hline (keyword_iff.mp hword) h
      exact ⟨f, hf, by rw [hkind]; decide, hspec, hcs⟩
    obtain h | ⟨-, h⟩ := Option.or_eq_some_iff.mp h
    · obtain ⟨after, hword, h⟩ := Option.bind_eq_some_iff.mp h
      obtain ⟨f, hf, hkind, hspec, hcs⟩ :=
        exists_call_of_argument .require rfl hline ((keyword_iff.mp hword).trans rfl) h
      exact ⟨f, hf, by rw [hkind]; decide, hspec, hcs⟩
    · obtain ⟨after, hword, h⟩ := Option.bind_eq_some_iff.mp h
      obtain ⟨f, hf, hkind, hspec, hcs⟩ :=
        exists_call_of_argument .dynamic rfl hline ((keyword_iff.mp hword).trans rfl) h
      exact ⟨f, hf, by rw [hkind]; decide, hspec, hcs⟩
  · cases h

theorem spacedLiteral_of_tight (hf : f.Tight) (hkind : f.kind = .sideEffect) (rest : List Char) :
    (keyword "import" (f.text ++ rest)).bind spacedLiteral = some (f.specifier, rest) := by
  have hgap : f.gap ≠ [] := fun hnil => by
    have hcall := hf.spaced.mp hnil
    rw [hkind] at hcall
    cases hcall
  have hword : keyword "import" (f.text ++ rest) = some (f.gap ++ (f.quoted ++ rest)) := by
    rw [keyword_iff, f.text_append_of_direct (by rw [hkind]; rfl), hkind, List.append_assoc]
    rfl
  have hspace : many1 Text.isWhitespace (f.gap ++ (f.quoted ++ rest)) =
      some (f.gap, f.quoted ++ rest) :=
    many1_append hgap hf.gap (not_isWhitespace_of_isQuote hf.opening) _
  rw [hword, Option.bind_some, spacedLiteral, hspace, Option.bind_some, hf.literal_quoted]

/-! ### The patterns at a place -/

variable {s : Spot} {p : Placed}

/-- `RE_JS_IMPORT` at a place. -/
def wordAt (s : Spot) (cs : List Char) : Option (List Char × List Char) := RE_JS_IMPORT s.prev cs

/-- `RE_JS_SIDE_EFFECT` behind the blanks at the beginning of a line. -/
def sideEffectAt (s : Spot) (cs : List Char) : Option (List Char × List Char) :=
  if s.fresh then (keyword "import" cs).bind spacedLiteral else none

namespace Placed

/-- Regular with a word before the specifier or a parenthesis. -/
def isWorded (p : Placed) : Bool := decide p.Regular && p.form.kind ≠ .sideEffect

/-- Regular without names. -/
def isBare (p : Placed) : Bool := decide p.Regular && p.form.kind = .sideEffect

theorem isWorded_iff : p.isWorded = true ↔ p.Regular ∧ p.form.kind ≠ .sideEffect := by
  simp [isWorded]

theorem isBare_iff : p.isBare = true ↔ p.Regular ∧ p.form.kind = .sideEffect := by simp [isBare]

theorem Regular.tight (h : p.Regular) (hf : p.form.WellFormed) : p.form.Tight := ⟨hf, h.gap⟩

end Placed

theorem ImportForm.text_ne_nil (f : ImportForm) : f.text ≠ [] := by
  rw [text]
  cases f.kind <;> exact List.cons_ne_nil _ _

/-- The letters with which an import begins. -/
theorem ImportForm.exists_head (f : ImportForm) (rest : List Char) :
    ∃ c tail, f.text ++ rest = c :: tail ∧ Pattern.isWordChar c = true := by
  rw [text]
  cases f.kind <;> exact ⟨_, _, rfl, by decide⟩

theorem placedAt_eq_some_iff : placedAt s cs = some (p, rest) ↔
    formAt s.prev cs = some (p.form, rest) ∧ p.line = s.line ∧ p.fresh = s.fresh := by
  rw [placedAt, Option.map_eq_some_iff]
  constructor
  · rintro ⟨⟨form, rest'⟩, h, heq⟩
    cases heq
    exact ⟨h, rfl, rfl⟩
  · rintro ⟨h, hline, hfresh⟩
    exact ⟨_, h, by rw [← hline, ← hfresh]⟩

theorem sound_placedAt : Sound placedAt := by
  intro s cs p rest h
  obtain ⟨h, -⟩ := placedAt_eq_some_iff.mp h
  exact ⟨p.form.text, p.form.text_ne_nil, (formAt_eq_some_iff.mp h).2.2⟩

theorem not_mem_text {line : List Char} (hline : '\n' ∉ line) (h : line = f.text ++ rest) :
    '\n' ∉ f.text := fun hmem => hline (by rw [h]; exact List.mem_append_left _ hmem)

/-- A reader of the regular imports of a kind, as a filter. -/
theorem eq_filter_placedAt {pattern : Option (List Char × List Char)} {counts : Placed → Bool}
    (h : ∀ specifier rest, pattern = some (specifier, rest) ↔
      ∃ p, placedAt s cs = some (p, rest) ∧ counts p = true ∧ p.form.specifier = specifier) :
    pattern = ((placedAt s cs).filter (counts ·.1)).map fun r => (r.1.form.specifier, r.2) := by
  refine Option.ext fun ⟨specifier, rest⟩ => ?_
  rw [h, Option.map_eq_some_iff]
  constructor
  · rintro ⟨p, hread, hcounts, hspec⟩
    exact ⟨(p, rest), Option.filter_eq_some_iff.mpr ⟨hread, hcounts⟩, by rw [hspec]⟩
  · rintro ⟨⟨p, rest'⟩, hread, heq⟩
    obtain ⟨hread, hcounts⟩ := Option.filter_eq_some_iff.mp hread
    cases heq
    exact ⟨p, hread, hcounts, rfl⟩

theorem wordAt_eq (s : Spot) (hline : '\n' ∉ cs) : wordAt s cs =
    ((placedAt s cs).filter (·.1.isWorded)).map fun r => (r.1.form.specifier, r.2) := by
  refine eq_filter_placedAt fun specifier rest => ?_
  constructor
  · intro h
    obtain ⟨hboundary, f, hf, hkind, rfl, hcs⟩ := exists_tight_of_RE_JS_IMPORT hline h
    have hform := formAt_eq_some_iff.mpr ⟨hboundary, hf.toWellFormed, hcs⟩
    refine ⟨⟨s.line, s.fresh, f⟩, placedAt_eq_some_iff.mpr ⟨hform, rfl, rfl⟩, ?_, rfl⟩
    exact Placed.isWorded_iff.mpr
      ⟨⟨not_mem_text hline hcs, hf.spaced, fun h => absurd h hkind⟩, hkind⟩
  · rintro ⟨p, hread, hcounts, rfl⟩
    obtain ⟨hregular, hkind⟩ := Placed.isWorded_iff.mp hcounts
    obtain ⟨hboundary, hwell, hcs⟩ := formAt_eq_some_iff.mp (placedAt_eq_some_iff.mp hread).1
    rw [hcs] at hboundary ⊢
    exact RE_JS_IMPORT_of_tight (hregular.tight hwell) hkind hboundary

/-- Where nothing but blanks is before a place on its line, no word is. -/
def Spot.Sane (s : Spot) : Prop := s.fresh = true → s.prev.any Pattern.isWordChar = false

theorem Spot.Sane.isBoundary_text (hs : s.Sane) (hfresh : s.fresh = true) (f : ImportForm)
    (rest : List Char) : Pattern.isBoundary s.prev (f.text ++ rest).head? = true := by
  obtain ⟨c, tail, htext, hc⟩ := f.exists_head rest
  rw [htext, Pattern.isBoundary, hs hfresh]
  simp [hc]

theorem sideEffectAt_eq (hs : s.Sane) (hline : '\n' ∉ cs) : sideEffectAt s cs =
    ((placedAt s cs).filter (·.1.isBare)).map fun r => (r.1.form.specifier, r.2) := by
  refine eq_filter_placedAt fun specifier rest => ?_
  rw [sideEffectAt]
  constructor
  · intro h
    split at h
    · next hfresh =>
      obtain ⟨after, hword, h⟩ := Option.bind_eq_some_iff.mp h
      obtain ⟨f, hf, hkind, rfl, hcs⟩ :=
        exists_direct_of_spacedLiteral .sideEffect rfl hline (keyword_iff.mp hword) h
      have hboundary := hs.isBoundary_text hfresh f rest
      rw [← hcs] at hboundary
      have hform := formAt_eq_some_iff.mpr ⟨hboundary, hf.toWellFormed, hcs⟩
      refine ⟨⟨s.line, s.fresh, f⟩, placedAt_eq_some_iff.mpr ⟨hform, rfl, rfl⟩, ?_, rfl⟩
      exact Placed.isBare_iff.mpr ⟨⟨not_mem_text hline hcs, hf.spaced, fun _ => hfresh⟩, hkind⟩
    · cases h
  · rintro ⟨p, hread, hcounts, rfl⟩
    obtain ⟨hregular, hkind⟩ := Placed.isBare_iff.mp hcounts
    obtain ⟨hform, -, hfresh⟩ := placedAt_eq_some_iff.mp hread
    obtain ⟨-, hwell, hcs⟩ := formAt_eq_some_iff.mp hform
    rw [if_pos (hfresh ▸ hregular.fresh hkind), hcs]
    exact spacedLiteral_of_tight (hregular.tight hwell) hkind rest

/-! ### Inside an import -/

theorem isWordChar_eq_false {c : Char} (h : Text.isWhitespace c = true ∨ isQuote c = true) :
    Pattern.isWordChar c = false := by
  obtain h | h := h
  · exact not_isWordChar h
  · simp only [isQuote, Bool.or_eq_true, decide_eq_true_eq] at h
    obtain rfl | rfl := h <;> decide

namespace ImportForm

/-- What is before the specifier and its quotes. -/
def front (f : ImportForm) : List Char :=
  f.kind.word.toList ++ (f.gap ++ if f.kind.isCall then '(' :: f.inner else [])

theorem text_eq_front (f : ImportForm) : f.text = f.front ++ f.quoted := by simp [text, front]

variable {front back : List Char} {c : Char}

/-- A letter of an import is in its word or in its specifier. -/
theorem WellFormed.place_of_isWordChar (hf : f.WellFormed) (hsplit : f.text = front ++ c :: back)
    (hword : Pattern.isWordChar c = true) :
    (∃ a, f.kind.word.toList = front ++ c :: a) ∨ ∃ before x y,
      front = before ++ f.opening :: x ∧ f.specifier = x ++ c :: y ∧ back = y ++ [f.closing] := by
  have hquote {q : Char} (hq : isQuote q = true) (h : c = q) : False := by
    rw [h, isWordChar_eq_false (.inr hq)] at hword
    cases hword
  have hmiddle : c ∉ f.gap ++ if f.kind.isCall then '(' :: f.inner else [] := by
    have hspace {l : List Char} (hl : ∀ c ∈ l, Text.isWhitespace c = true) : c ∉ l := fun hmem => by
      rw [isWordChar_eq_false (.inl (hl c hmem))] at hword
      cases hword
    have hparen : c ≠ '(' := by
      rintro rfl
      exact absurd hword (by decide)
    rw [List.mem_append, not_or]
    refine ⟨hspace hf.gap, ?_⟩
    split
    · rw [List.mem_cons, not_or]
      exact ⟨hparen, hspace hf.inner⟩
    · exact List.not_mem_nil
  rw [text_eq_front, ImportForm.front, List.append_assoc] at hsplit
  obtain ⟨a, ha, -⟩ | ⟨l, hfront, hl⟩ := Lists.append_eq_append_cons hsplit
  · exact .inl ⟨a, ha⟩
  obtain ⟨m, hm, -⟩ | ⟨l', rfl, hl'⟩ := Lists.append_eq_append_cons hl
  · exact absurd (by rw [hm]; exact List.mem_append_right _ List.mem_cons_self) hmiddle
  rw [quoted] at hl'
  cases l' with
  | nil => exact (hquote hf.opening (List.cons.inj hl').1.symm).elim
  | cons q x =>
    obtain ⟨rfl, hx⟩ := List.cons.inj hl'
    obtain ⟨y, hspec, hback⟩ | ⟨l, -, hl⟩ := Lists.append_eq_append_cons hx
    · exact .inr ⟨_, x, y, by rw [hfront, ← List.append_assoc], hspec, hback⟩
    · have hmem : c ∈ [f.closing] := by
        rw [hl]
        exact List.mem_append_right _ List.mem_cons_self
      exact (hquote hf.closing (List.mem_singleton.mp hmem)).elim

end ImportForm

/-- A text ends like what is before the specifier of an import. -/
def opensImport (specifier : List Char) : Bool :=
  let stem := specifier.rdropWhile Text.isWhitespace
  (stem ≠ specifier && "from".toList <:+ stem) ||
    ("require(".toList <:+ stem || "import(".toList <:+ stem)

theorem rdropWhile_append {l : List Char} {c : Char} {space : List Char}
    (hspace : ∀ d ∈ space, Text.isWhitespace d = true) (hc : Text.isWhitespace c = false) :
    (l ++ c :: space).rdropWhile Text.isWhitespace = l ++ [c] := by
  have hreverse : (l ++ c :: space).reverse = space.reverse ++ c :: l.reverse := by simp
  rw [List.rdropWhile, hreverse, List.dropWhile_append_of_pos (by simpa using hspace),
    List.dropWhile_cons_of_neg (by simp [hc])]
  simp

theorem opensImport_of_front (hf : f.Tight) (hkind : f.kind ≠ .sideEffect) (x : List Char) :
    opensImport (x ++ f.front) = true := by
  have hcall (h : f.kind.isCall = true) :
      (x ++ f.front).rdropWhile Text.isWhitespace = x ++ f.kind.word.toList ++ ['('] := by
    have hfront : x ++ f.front = (x ++ f.kind.word.toList) ++ '(' :: f.inner := by
      simp [ImportForm.front, h, hf.spaced.mpr h]
    rw [hfront, rdropWhile_append hf.inner (by decide)]
  rw [opensImport]
  cases hk : f.kind with
  | sideEffect => exact absurd hk hkind
  | static =>
    have hgap : f.gap ≠ [] := fun hnil => by
      have hcall := hf.spaced.mp hnil
      rw [hk] at hcall
      cases hcall
    have hfront : x ++ f.front = (x ++ "fro".toList) ++ 'm' :: f.gap := by
      simp [ImportForm.front, hk, ImportKind.word, ImportKind.isCall]
    rw [hfront, rdropWhile_append hf.gap (by decide)]
    simp [hgap, List.suffix_append]
  | require =>
    rw [hcall (by rw [hk]; rfl), hk]
    simp [ImportKind.word, List.suffix_append]
  | dynamic =>
    rw [hcall (by rw [hk]; rfl), hk]
    simp [ImportKind.word, List.suffix_append]

theorem not_isQuote_of_mem_front (hf : f.WellFormed) {c : Char} (h : c ∈ f.front) :
    isQuote c = false := by
  have hword : ∀ c ∈ f.kind.word.toList, isQuote c = false := by
    cases f.kind <;> exact Text.forall_mem_of_all (by decide)
  have hspace {l : List Char} (hl : ∀ c ∈ l, Text.isWhitespace c = true) (hc : c ∈ l) :
      isQuote c = false := by
    cases hquote : isQuote c with
    | false => rfl
    | true =>
      have hnot := not_isWhitespace_of_isQuote hquote
      rw [hl c hc] at hnot
      cases hnot
  rw [ImportForm.front, List.mem_append, List.mem_append] at h
  obtain h | h | h := h
  · exact hword c h
  · exact hspace hf.gap h
  · split at h
    · obtain rfl | h := List.mem_cons.mp h
      · decide
      · exact hspace hf.inner h
    · cases h

/-- What is between quotes and goes on behind the second one like an import is what is before the
specifier of that import. -/
theorem eq_front (hf : f.WellFormed) {y behind : List Char} {q : Char} (hq : isQuote q = true)
    (hy : ∀ c ∈ y, isQuote c = false) (h : y ++ q :: behind = f.text ++ rest) : y = f.front := by
  have htake {l : List Char} (hl : ∀ c ∈ l, isQuote c = false) {q : Char} (hq : isQuote q = true)
      (behind : List Char) : (l ++ q :: behind).takeWhile (!isQuote ·) = l := by
    rw [List.takeWhile_append_of_pos (by simpa using hl),
      List.takeWhile_cons_of_neg (by simp [hq]), List.append_nil]
  have htext : f.text ++ rest = f.front ++ f.opening :: (f.specifier ++ [f.closing] ++ rest) := by
    rw [f.text_eq_front, List.append_assoc]
    rfl
  rw [htext] at h
  have hsame := congrArg (List.takeWhile (!isQuote ·)) h
  rwa [htake hy hq, htake (fun c hc => not_isQuote_of_mem_front hf hc) hf.opening] at hsame

/-- The character before a place. -/
theorem exists_prev_foldl {front : List Char} (hfront : front ≠ []) (s : Spot) :
    ∃ d ∈ front, (front.foldl Spot.next s).prev = some d := by
  induction front generalizing s with
  | nil => exact absurd rfl hfront
  | cons c front ih =>
    cases front with
    | nil => exact ⟨c, List.mem_cons_self, rfl⟩
    | cons d front =>
      obtain ⟨e, he, hprev⟩ := ih (List.cons_ne_nil d front) (s.next c)
      exact ⟨e, List.mem_cons_of_mem c he, hprev⟩

theorem Spot.fresh_next {c : Char} (hc : c ≠ '\n') (s : Spot) :
    (s.next c).fresh = (s.fresh && isBlank c) := by simp [next, hc]

theorem fresh_foldl {line : List Char} (hline : '\n' ∉ line) (hs : s.fresh = false) :
    (line.foldl Spot.next s).fresh = false := by
  induction line generalizing s with
  | nil => exact hs
  | cons c line ih =>
    rw [List.mem_cons, not_or] at hline
    exact ih hline.2 (by rw [s.fresh_next (Ne.symm hline.1), hs]; rfl)

section inside

variable {b : Placed} {front back : List Char} {c : Char}

/-- An import that is read inside another one is read in its specifier. -/
theorem exists_specifier_of_inside (hf : f.WellFormed) (hsplit : f.text = front ++ c :: back)
    (hfront : front ≠ [])
    (hread : placedAt (front.foldl Spot.next s) (c :: back ++ rest) = some (b, specifier)) :
    ∃ before x y, front = before ++ f.opening :: x ∧ f.specifier = x ++ c :: y ∧
      back = y ++ [f.closing] := by
  obtain ⟨hboundary, hwell, hcs⟩ := formAt_eq_some_iff.mp (placedAt_eq_some_iff.mp hread).1
  obtain ⟨c', tail, hhead, hword⟩ := b.form.exists_head specifier
  obtain rfl : c = c' := (List.cons.inj (hcs.trans hhead)).1
  obtain ⟨a, ha⟩ | hplace := hf.place_of_isWordChar hsplit hword
  · -- a letter in the word is not at the beginning of a word
    obtain ⟨d, hd, hprev⟩ := exists_prev_foldl hfront s
    have hletters : ∀ d ∈ f.kind.word.toList, Pattern.isWordChar d = true := by
      cases f.kind <;> exact Text.forall_mem_of_all (by decide)
    have hletter := hletters d (by rw [ha]; exact List.mem_append_left _ hd)
    rw [hprev, Pattern.isBoundary] at hboundary
    simp [hletter, hword] at hboundary
  · exact hplace

theorem not_isWorded_inside (hf : f.WellFormed) (hinert : opensImport f.specifier = false)
    (hsplit : f.text = front ++ c :: back) (hfront : front ≠ []) {rest' : List Char}
    (hread : placedAt (front.foldl Spot.next s) (c :: back ++ rest) = some (b, rest')) :
    b.isWorded = false := by
  obtain ⟨before, x, y, -, hspec, rfl⟩ := exists_specifier_of_inside hf hsplit hfront hread
  obtain ⟨-, hwell, hcs⟩ := formAt_eq_some_iff.mp (placedAt_eq_some_iff.mp hread).1
  have hy : ∀ d ∈ c :: y, isQuote d = false := fun d hd =>
    (hf.unquoted d (by rw [hspec]; exact List.mem_append_right _ hd)).1
  have heq : c :: y ++ f.closing :: rest = b.form.text ++ rest' := by
    rw [← hcs]
    simp
  have hfrontier : c :: y = b.form.front := eq_front hwell hf.closing hy heq
  cases hcounts : b.isWorded with
  | false => rfl
  | true =>
    obtain ⟨hregular, hkind⟩ := Placed.isWorded_iff.mp hcounts
    have hopens := opensImport_of_front (hregular.tight hwell) hkind x
    rw [← hfrontier, ← hspec, hinert] at hopens
    cases hopens

theorem not_isBare_inside (hf : f.WellFormed) (hsplit : f.text = front ++ c :: back)
    (hfront : front ≠ []) {rest' : List Char}
    (hread : placedAt (front.foldl Spot.next s) (c :: back ++ rest) = some (b, rest')) :
    b.isBare = false := by
  obtain ⟨before, x, y, rfl, hspec, -⟩ := exists_specifier_of_inside hf hsplit hfront hread
  have hquote : f.opening ≠ '\n' ∧ isBlank f.opening = false := by
    have hopening := hf.opening
    simp only [isQuote, Bool.or_eq_true, decide_eq_true_eq] at hopening
    obtain h | h := hopening <;> rw [h] <;> decide
  have hx : '\n' ∉ x := fun hmem =>
    (hf.unquoted '\n' (by rw [hspec]; exact List.mem_append_left _ hmem)).2 rfl
  have hstale : ((before ++ f.opening :: x).foldl Spot.next s).fresh = false := by
    rw [List.foldl_append, List.foldl_cons]
    refine fresh_foldl hx ?_
    rw [Spot.fresh_next hquote.1, hquote.2, Bool.and_false]
  cases hcounts : b.isBare with
  | false => rfl
  | true =>
    obtain ⟨hregular, hkind⟩ := Placed.isBare_iff.mp hcounts
    have hfresh := hregular.fresh hkind
    rw [(placedAt_eq_some_iff.mp hread).2.2, hstale] at hfresh
    cases hfresh

end inside

end KirkForge.ImportLint
