import KirkForge.ToolLintImports.Rules

/-!
# Imports as they are written

The imports of a script, read from its text: `from`, `require`, `import` with a parenthesis and
`import` alone, each followed by a specifier between quotes, with white space anywhere between
these. `formAt` reads one and is exact (`formAt_eq_some_iff`). A specifier is on one line. The
patterns expect less white space, and the whole import on one line (`Placed.Regular`).
-/

namespace KirkForge.ImportLint

open Scan

inductive ImportKind
  | static | require | dynamic | sideEffect
  deriving DecidableEq, Repr

def ImportKind.word : ImportKind → String
  | static => "from"
  | require => "require"
  | dynamic | sideEffect => "import"

def ImportKind.isCall : ImportKind → Bool
  | require | dynamic => true
  | static | sideEffect => false

/-- The white space before and behind the parenthesis of a call, and a specifier with its quotes. -/
structure ImportForm where
  kind : ImportKind
  gap : List Char
  inner : List Char
  opening : Char
  specifier : List Char
  closing : Char
  deriving DecidableEq

namespace ImportForm

variable (f : ImportForm)

def quoted : List Char := f.opening :: f.specifier ++ [f.closing]

def text : List Char :=
  f.kind.word.toList ++ (f.gap ++ ((if f.kind.isCall then '(' :: f.inner else []) ++ f.quoted))

/-- White space is white space, and a specifier is a text on one line without quotes between two of
them. -/
structure WellFormed : Prop where
  gap : ∀ c ∈ f.gap, Text.isWhitespace c = true
  inner : ∀ c ∈ f.inner, Text.isWhitespace c = true
  call : f.kind.isCall = false → f.inner = []
  opening : isQuote f.opening = true
  closing : isQuote f.closing = true
  nonempty : f.specifier ≠ []
  unquoted : ∀ c ∈ f.specifier, isQuote c = false ∧ c ≠ '\n'

end ImportForm

/-- What a specifier consists of. -/
def isSpecifierPart (c : Char) : Bool := !isQuote c && c ≠ '\n'

theorem isSpecifierPart_iff {c : Char} :
    isSpecifierPart c = true ↔ isQuote c = false ∧ c ≠ '\n' := by
  simp [isSpecifierPart]

/-- A specifier with its quotes. -/
def quotedAt (cs : List Char) : Option ((Char × List Char × Char) × List Char) :=
  match cs with
  | [] => none
  | q :: cs =>
    if isQuote q then
      (many1 isSpecifierPart cs).bind fun (specifier, rest) =>
        match rest with
        | [] => none
        | q' :: rest => if isQuote q' then some ((q, specifier, q'), rest) else none
    else none

def direct (kind : ImportKind) (cs : List Char) : Option (ImportForm × List Char) :=
  let (gap, cs) := many Text.isWhitespace cs
  (quotedAt cs).map fun ((q, specifier, q'), rest) => (⟨kind, gap, [], q, specifier, q'⟩, rest)

def call (kind : ImportKind) (cs : List Char) : Option (ImportForm × List Char) :=
  let (gap, cs) := many Text.isWhitespace cs
  (keyword "(" cs).bind fun cs =>
    let (inner, cs) := many Text.isWhitespace cs
    (quotedAt cs).map fun ((q, specifier, q'), rest) => (⟨kind, gap, inner, q, specifier, q'⟩, rest)

/-- An import of a kind. -/
def kindAt (kind : ImportKind) (cs : List Char) : Option (ImportForm × List Char) :=
  (keyword kind.word cs).bind (if kind.isCall then call kind else direct kind)

/-- The import that stands at a place behind a character. -/
def formAt (prev : Option Char) (cs : List Char) : Option (ImportForm × List Char) :=
  if Pattern.isBoundary prev cs.head? then
    [.static, .require, .dynamic, .sideEffect].findSome? fun kind => kindAt kind cs
  else none

/-- Where the reading of a text is: the character before, whether only blanks are before it on its
line, and the number of the line. -/
structure Spot where
  prev : Option Char := none
  fresh : Bool := true
  line : Nat := 1
  deriving DecidableEq

def Spot.next (s : Spot) (c : Char) : Spot where
  prev := some c
  fresh := c = '\n' || s.fresh && isBlank c
  line := if c = '\n' then s.line + 1 else s.line

/-- An import in a text. -/
structure Placed where
  line : Nat
  fresh : Bool
  form : ImportForm
  deriving DecidableEq

def placedAt (s : Spot) (cs : List Char) : Option (Placed × List Char) :=
  (formAt s.prev cs).map fun (form, rest) => (⟨s.line, s.fresh, form⟩, rest)

def placedImports (s : Spot) (text : List Char) : List Placed :=
  readings Spot.next placedAt 0 s text

/-- Written as the patterns expect it: on one line, with white space behind `from` and none before a
parenthesis, and without names only at the beginning of a line. -/
structure Placed.Regular (p : Placed) : Prop where
  line : '\n' ∉ p.form.text
  gap : p.form.gap = [] ↔ p.form.kind.isCall = true
  fresh : p.form.kind = .sideEffect → p.fresh = true

instance (p : Placed) : Decidable p.Regular :=
  decidable_of_iff ('\n' ∉ p.form.text ∧ (p.form.gap = [] ↔ p.form.kind.isCall = true) ∧
      (p.form.kind = .sideEffect → p.fresh = true))
    ⟨fun ⟨h, h', h''⟩ => ⟨h, h', h''⟩, fun h => ⟨h.line, h.gap, h.fresh⟩⟩

/-! ### What is read -/

variable {cs rest gap inner specifier : List Char} {q q' : Char} {f : ImportForm}
  {prev : Option Char}

theorem not_isWhitespace_of_isQuote {c : Char} (h : isQuote c = true) :
    Text.isWhitespace c = false := by
  simp only [isQuote, Bool.or_eq_true, decide_eq_true_eq] at h
  obtain rfl | rfl := h <;> decide

theorem quotedAt_eq_some_iff : quotedAt cs = some ((q, specifier, q'), rest) ↔
    (isQuote q = true ∧ isQuote q' = true ∧ specifier ≠ [] ∧
      ∀ c ∈ specifier, isQuote c = false ∧ c ≠ '\n') ∧ cs = q :: specifier ++ q' :: rest := by
  simp only [← isSpecifierPart_iff]
  constructor
  · intro h
    rw [quotedAt.eq_def] at h
    split at h
    · cases h
    split at h
    · next hq =>
      obtain ⟨⟨spec, after⟩, hspec, h⟩ := Option.bind_eq_some_iff.mp h
      obtain ⟨hsplit, hne, hall⟩ := many1_spec hspec
      dsimp only at h
      split at h
      · cases h
      · split at h
        · next hq' =>
          cases h
          exact ⟨⟨hq, hq', hne, hall⟩, by rw [hsplit]; rfl⟩
        · cases h
    · cases h
  · rintro ⟨⟨hq, hq', hne, hall⟩, rfl⟩
    have hstop : isSpecifierPart q' = false := by simp [isSpecifierPart, hq']
    rw [List.cons_append, quotedAt.eq_def]
    simp [hq, hq', many1_append hne hall hstop rest]

theorem literal_eq_some_iff : literal cs = some (specifier, rest) ↔
    ∃ q q', (isQuote q = true ∧ isQuote q' = true ∧ specifier ≠ [] ∧
      ∀ c ∈ specifier, isQuote c = false) ∧ cs = q :: specifier ++ q' :: rest := by
  constructor
  · intro h
    rw [literal.eq_def] at h
    split at h
    · cases h
    split at h
    · next q _ hq =>
      obtain ⟨⟨spec, after⟩, hspec, h⟩ := Option.bind_eq_some_iff.mp h
      obtain ⟨hsplit, hne, hall⟩ := many1_spec hspec
      dsimp only at h
      split at h
      · cases h
      · next q' _ =>
        split at h
        · next hq' =>
          cases h
          exact ⟨q, q', ⟨hq, hq', hne, by simpa using hall⟩, by rw [hsplit]; rfl⟩
        · cases h
    · cases h
  · rintro ⟨q, q', ⟨hq, hq', hne, hall⟩, rfl⟩
    have hmany := many1_append (p := fun c => !isQuote c) hne (by simpa using hall)
      (by simpa using hq') rest
    rw [List.cons_append, literal.eq_def]
    simp [hq, hq', hmany]

/-- White space in front of something else is read as a whole. -/
theorem many_isWhitespace (hgap : ∀ c ∈ gap, Text.isWhitespace c = true) {c : Char}
    (hc : Text.isWhitespace c = false) (rest : List Char) :
    many Text.isWhitespace (gap ++ c :: rest) = (gap, c :: rest) :=
  many_append hgap hc rest

theorem direct_eq_some_iff {kind : ImportKind} (hkind : kind.isCall = false) :
    direct kind cs = some (f, rest) ↔
      f.kind = kind ∧ f.WellFormed ∧ cs = f.gap ++ f.quoted ++ rest := by
  constructor
  · intro h
    obtain ⟨hsplit, hgap⟩ := many_spec Text.isWhitespace cs
    rw [direct] at h
    generalize many Text.isWhitespace cs = m at hsplit hgap h
    obtain ⟨⟨⟨q, specifier, q'⟩, after⟩, h, heq⟩ := Option.map_eq_some_iff.mp h
    cases heq
    obtain ⟨⟨hq, hq', hne, hall⟩, hrest⟩ := quotedAt_eq_some_iff.mp h
    refine ⟨rfl, ⟨hgap, nofun, fun _ => rfl, hq, hq', hne, hall⟩, ?_⟩
    rw [hsplit, hrest]
    simp [ImportForm.quoted]
  · rintro ⟨rfl, hf, rfl⟩
    obtain ⟨kind, gap, inner, q, specifier, q'⟩ := f
    obtain rfl : inner = [] := hf.call hkind
    have hmany := many_isWhitespace hf.gap (not_isWhitespace_of_isQuote hf.opening)
      (specifier ++ q' :: rest)
    have hquoted : quotedAt (q :: specifier ++ q' :: rest) = some ((q, specifier, q'), rest) :=
      quotedAt_eq_some_iff.mpr ⟨⟨hf.opening, hf.closing, hf.nonempty, hf.unquoted⟩, rfl⟩
    have hcs : gap ++ ImportForm.quoted ⟨kind, gap, [], q, specifier, q'⟩ ++ rest =
        gap ++ q :: (specifier ++ q' :: rest) := by simp [ImportForm.quoted]
    rw [direct, hcs, hmany]
    exact Option.map_eq_some_iff.mpr ⟨_, hquoted, rfl⟩

theorem call_eq_some_iff {kind : ImportKind} (hkind : kind.isCall = true) :
    call kind cs = some (f, rest) ↔
      f.kind = kind ∧ f.WellFormed ∧ cs = f.gap ++ '(' :: f.inner ++ f.quoted ++ rest := by
  constructor
  · intro h
    obtain ⟨hsplit, hgap⟩ := many_spec Text.isWhitespace cs
    rw [call] at h
    generalize many Text.isWhitespace cs = m at hsplit hgap h
    obtain ⟨behind, hparen, h⟩ := Option.bind_eq_some_iff.mp h
    obtain ⟨hsplit', hinner⟩ := many_spec Text.isWhitespace behind
    generalize many Text.isWhitespace behind = m' at hsplit' hinner h
    obtain ⟨⟨⟨q, specifier, q'⟩, after⟩, h, heq⟩ := Option.map_eq_some_iff.mp h
    cases heq
    obtain ⟨⟨hq, hq', hne, hall⟩, hrest⟩ := quotedAt_eq_some_iff.mp h
    refine ⟨rfl, ⟨hgap, hinner, fun hcall => ?_, hq, hq', hne, hall⟩, ?_⟩
    · rw [hkind] at hcall
      cases hcall
    · rw [hsplit, keyword_iff.mp hparen, hsplit', hrest]
      simp [ImportForm.quoted]
  · rintro ⟨rfl, hf, rfl⟩
    obtain ⟨kind, gap, inner, q, specifier, q'⟩ := f
    have hmany := many_isWhitespace hf.gap (show Text.isWhitespace '(' = false by decide)
      (inner ++ (q :: specifier ++ q' :: rest))
    have hmany' := many_isWhitespace hf.inner (not_isWhitespace_of_isQuote hf.opening)
      (specifier ++ q' :: rest)
    have hquoted : quotedAt (q :: specifier ++ q' :: rest) = some ((q, specifier, q'), rest) :=
      quotedAt_eq_some_iff.mpr ⟨⟨hf.opening, hf.closing, hf.nonempty, hf.unquoted⟩, rfl⟩
    have hparen : keyword "(" ('(' :: (inner ++ (q :: specifier ++ q' :: rest))) =
        some (inner ++ (q :: specifier ++ q' :: rest)) := keyword_iff.mpr rfl
    have hcs : gap ++ '(' :: inner ++ ImportForm.quoted ⟨kind, gap, inner, q, specifier, q'⟩ ++ rest =
        gap ++ '(' :: (inner ++ (q :: specifier ++ q' :: rest)) := by simp [ImportForm.quoted]
    rw [call, hcs, hmany]
    refine Option.bind_eq_some_iff.mpr ⟨_, hparen, ?_⟩
    rw [List.cons_append, hmany']
    exact Option.map_eq_some_iff.mpr ⟨_, hquoted, rfl⟩

/-- No call stands where white space and a quote are. -/
theorem call_eq_none {kind : ImportKind} (hgap : ∀ c ∈ gap, Text.isWhitespace c = true)
    (hq : isQuote q = true) (rest : List Char) : call kind (gap ++ q :: rest) = none := by
  have hne : q ≠ '(' := by
    rintro rfl
    exact absurd hq (by decide)
  have hparen : keyword "(" (q :: rest) = none := by
    rw [Option.eq_none_iff_forall_not_mem]
    intro after hafter
    exact hne (List.cons.inj (keyword_iff.mp hafter)).1
  rw [call, many_isWhitespace hgap (not_isWhitespace_of_isQuote hq)]
  dsimp only
  rw [hparen]
  rfl

theorem ImportForm.text_append_of_direct (h : f.kind.isCall = false) (rest : List Char) :
    f.text ++ rest = f.kind.word.toList ++ (f.gap ++ f.quoted ++ rest) := by
  simp [text, h]

theorem ImportForm.text_append_of_call (h : f.kind.isCall = true) (rest : List Char) :
    f.text ++ rest = f.kind.word.toList ++ (f.gap ++ '(' :: f.inner ++ f.quoted ++ rest) := by
  simp [text, h]

theorem kindAt_eq_some_iff {kind : ImportKind} : kindAt kind cs = some (f, rest) ↔
    f.kind = kind ∧ f.WellFormed ∧ cs = f.text ++ rest := by
  rw [kindAt, Option.bind_eq_some_iff]
  cases hkind : kind.isCall with
  | false =>
    constructor
    · rintro ⟨after, hword, h⟩
      obtain ⟨rfl, hf, rfl⟩ := (direct_eq_some_iff hkind).mp h
      exact ⟨rfl, hf, by rw [f.text_append_of_direct hkind, keyword_iff.mp hword]⟩
    · rintro ⟨rfl, hf, rfl⟩
      exact ⟨_, keyword_iff.mpr (f.text_append_of_direct hkind rest),
        (direct_eq_some_iff hkind).mpr ⟨rfl, hf, rfl⟩⟩
  | true =>
    constructor
    · rintro ⟨after, hword, h⟩
      obtain ⟨rfl, hf, rfl⟩ := (call_eq_some_iff hkind).mp h
      exact ⟨rfl, hf, by rw [f.text_append_of_call hkind, keyword_iff.mp hword]⟩
    · rintro ⟨rfl, hf, rfl⟩
      exact ⟨_, keyword_iff.mpr (f.text_append_of_call hkind rest),
        (call_eq_some_iff hkind).mpr ⟨rfl, hf, rfl⟩⟩

/-- An import of one kind is none of a kind that is tried before. -/
theorem kindAt_text_eq_none (hf : f.WellFormed) {kind : ImportKind}
    (h : kind.word ≠ f.kind.word ∨ kind = .dynamic ∧ f.kind = .sideEffect) (rest : List Char) :
    kindAt kind (f.text ++ rest) = none := by
  obtain hword | ⟨rfl, hside⟩ := h
  · have hnone : keyword kind.word (f.text ++ rest) = none := by
      rw [ImportForm.text]
      revert hword
      cases kind <;> cases f.kind <;> intro hword <;> first
        | rfl
        | exact absurd rfl hword
    rw [kindAt, hnone]
    rfl
  · have hcall : f.kind.isCall = false := by
      rw [hside]
      rfl
    have hword : keyword "import" (f.text ++ rest) =
        some (f.gap ++ f.opening :: (f.specifier ++ [f.closing] ++ rest)) := by
      rw [keyword_iff, f.text_append_of_direct hcall, hside]
      simp [ImportForm.quoted, ImportKind.word]
    rw [kindAt, ImportKind.word, hword]
    exact call_eq_none hf.gap hf.opening _

theorem formAt_eq_some_iff : formAt prev cs = some (f, rest) ↔
    Pattern.isBoundary prev cs.head? = true ∧ f.WellFormed ∧ cs = f.text ++ rest := by
  rw [formAt]
  constructor
  · intro h
    split at h
    · next hboundary =>
      obtain ⟨kind, -, h⟩ := List.exists_of_findSome?_eq_some h
      exact ⟨hboundary, (kindAt_eq_some_iff.mp h).2⟩
    · cases h
  · rintro ⟨hboundary, hf, rfl⟩
    have hread : kindAt f.kind (f.text ++ rest) = some (f, rest) :=
      kindAt_eq_some_iff.mpr ⟨rfl, hf, rfl⟩
    have hnone {kind : ImportKind}
        (h : kind.word ≠ f.kind.word ∨ kind = .dynamic ∧ f.kind = .sideEffect) :
        kindAt kind (f.text ++ rest) = none := kindAt_text_eq_none hf h rest
    rw [if_pos hboundary]
    cases hkind : f.kind with
    | static =>
      rw [hkind] at hread
      rw [List.findSome?_cons, hread]
    | require =>
      rw [hkind] at hread hnone
      rw [List.findSome?_cons, hnone (.inl (by decide)), List.findSome?_cons, hread]
    | dynamic =>
      rw [hkind] at hread hnone
      rw [List.findSome?_cons, hnone (.inl (by decide)), List.findSome?_cons,
        hnone (.inl (by decide)), List.findSome?_cons, hread]
    | sideEffect =>
      rw [hkind] at hread hnone
      rw [List.findSome?_cons, hnone (.inl (by decide)), List.findSome?_cons,
        hnone (.inl (by decide)), List.findSome?_cons, hnone (.inr ⟨rfl, rfl⟩),
        List.findSome?_cons, hread]

end KirkForge.ImportLint
