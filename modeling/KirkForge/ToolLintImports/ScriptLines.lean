import KirkForge.Theory.Path
import KirkForge.ToolLintImports.LinePatterns

/-!
# The lines of a script

The patterns are run on each line for itself. What they find there is what they find at the places
of the whole text, as they look no further than the end of a line (`readings_onLine_intercalate`).
One finds the regular imports with a word (`numbered_RE_JS_IMPORT`), the other one those without
names (`numbered_RE_JS_SIDE_EFFECT`).
-/

namespace KirkForge.ImportLint

open Scan

/-- What lines give, each with its number. -/
def numbered (found : List Char → List (List Char)) (k : Nat) (lines : List (List Char)) :
    List (Nat × List Char) :=
  (lines.zipIdx k).flatMap fun (line, i) => (found line).map fun x => (i + 1, x)

theorem numbered_cons (found : List Char → List (List Char)) (k : Nat) (line : List Char)
    (lines : List (List Char)) : numbered found k (line :: lines) =
      (found line).map (fun x => (k + 1, x)) ++ numbered found (k + 1) lines := by
  rw [numbered, List.zipIdx_cons, List.flatMap_cons]
  rfl

def Placed.entry (a : Placed) : Nat × List Char := (a.line, a.form.specifier)

/-! ### Readers of lines -/

/-- A pattern that looks at nothing behind the end of the line, with the number of the line. -/
def onLine (pattern : Spot → List Char → Option (List Char × List Char)) (s : Spot)
    (cs : List Char) : Option ((Nat × List Char) × List Char) :=
  (pattern s (many (· ≠ '\n') cs).1).map fun r => ((s.line, r.1), r.2 ++ (many (· ≠ '\n') cs).2)

variable {pattern : Spot → List Char → Option (List Char × List Char)} {s : Spot}

theorem onLine_of_line {line : List Char} (hline : '\n' ∉ line) :
    onLine pattern s line = (pattern s line).map fun r => ((s.line, r.1), r.2) := by
  have hall : ∀ c ∈ line, (c ≠ '\n' : Bool) = true := fun c hc => by
    simpa using fun heq : c = '\n' => hline (heq ▸ hc)
  rw [onLine, many, List.takeWhile_eq_self_iff.mpr hall, List.dropWhile_eq_nil_iff.mpr hall]
  simp

theorem onLine_append_newline (x t : List Char) : onLine pattern s (x ++ '\n' :: t) =
    (onLine pattern s x).map fun r => (r.1, r.2 ++ '\n' :: t) := by
  rw [onLine, onLine, many_append_stop (by decide), Option.map_map]
  simp [Function.comp_def]

theorem sound_onLine (hsound : Sound pattern) : Sound (onLine pattern) := by
  intro s cs a rest h
  obtain ⟨⟨x, after⟩, hread, heq⟩ := Option.map_eq_some_iff.mp h
  cases heq
  obtain ⟨y, hy, hsplit⟩ := hsound _ _ _ _ hread
  refine ⟨y, hy, ?_⟩
  rw [← List.append_assoc, ← hsplit]
  exact (many_spec _ cs).1

theorem divides_onLine (t : List Char) :
    Divides (onLine pattern) (fun _ => True) ('\n' :: t) where
  extend s x a rest h := by
    rw [onLine_append_newline, h]
    rfl
  within s x a rest _ h _ := by
    rw [onLine_append_newline] at h
    obtain ⟨⟨_, rest'⟩, hread, heq⟩ := Option.map_eq_some_iff.mp h
    cases heq
    exact ⟨rest', hread, rfl⟩

theorem readings_onLine_newline (hsound : Sound pattern) (line text : List Char) :
    readings Spot.next (onLine pattern) 0 s (line ++ '\n' :: text) =
      readings Spot.next (onLine pattern) 0 s line ++
        readings Spot.next (onLine pattern) 0 ((line.foldl Spot.next s).next '\n') text := by
  have hnone : onLine pattern (line.foldl Spot.next s) ('\n' :: text) = none := by
    have hnil : pattern (line.foldl Spot.next s) [] = none := by
      rw [Option.eq_none_iff_forall_not_mem]
      rintro ⟨x, rest⟩ h
      obtain ⟨y, hy, hsplit⟩ := hsound _ _ _ _ h
      exact hy (List.append_eq_nil_iff.mp hsplit.symm).1
    have happend : onLine pattern (line.foldl Spot.next s) ('\n' :: text) = _ :=
      onLine_append_newline [] text
    rw [happend, onLine_of_line List.not_mem_nil, hnil]
    rfl
  rw [readings_append (sound_onLine hsound) (divides_onLine text) _ line s rfl fun _ _ => trivial,
    readings_cons_of_none hnone]

theorem Spot.line_foldl {line : List Char} (hline : '\n' ∉ line) (s : Spot) :
    (line.foldl Spot.next s).line = s.line := by
  induction line generalizing s with
  | nil => rfl
  | cons c line ih =>
    rw [List.mem_cons, not_or] at hline
    exact (ih hline.2 (s.next c)).trans (if_neg (Ne.symm hline.1))

/-- The beginning of a line: nothing but blanks is before it. -/
structure Spot.AtStart (s : Spot) : Prop where
  prev : s.prev.any Pattern.isWordChar = false
  fresh : s.fresh = true

/-- What a pattern finds on each line for itself. -/
theorem readings_onLine_intercalate {found : List Char → List (List Char)}
    (hsound : Sound pattern)
    (hfound : ∀ line (s : Spot), '\n' ∉ line → s.AtStart →
      readings Spot.next (onLine pattern) 0 s line = (found line).map fun x => (s.line, x))
    (lines : List (List Char)) (hlines : ∀ line ∈ lines, '\n' ∉ line) :
    ∀ (s : Spot) (k : Nat), s.AtStart → s.line = k + 1 → lines ≠ [] →
      readings Spot.next (onLine pattern) 0 s (['\n'].intercalate lines) =
        numbered found k lines := by
  induction lines with
  | nil => exact fun s k _ _ hne => absurd rfl hne
  | cons line lines ih =>
    intro s k hs hk _
    obtain ⟨hline, hrest⟩ := List.forall_mem_cons.mp hlines
    have hfirst := hfound line s hline hs
    rw [hk] at hfirst
    rw [numbered_cons, ← hfirst]
    cases lines with
    | nil =>
      rw [List.intercalate_singleton]
      exact (List.append_nil _).symm
    | cons second lines =>
      have hjoin : ['\n'].intercalate (line :: second :: lines) =
          line ++ '\n' :: ['\n'].intercalate (second :: lines) := by
        rw [List.intercalate_cons_cons, List.append_assoc]
        rfl
      have hnext : ((line.foldl Spot.next s).next '\n').line = k + 1 + 1 := by
        rw [← hk, ← Spot.line_foldl hline s]
        rfl
      rw [hjoin, readings_onLine_newline hsound,
        ih hrest _ (k + 1) ⟨rfl, rfl⟩ hnext (List.cons_ne_nil _ _)]

/-! ### The two patterns on a line -/

theorem RE_JS_IMPORT_congr {p q : Option Char}
    (h : p.any Pattern.isWordChar = q.any Pattern.isWordChar) (cs : List Char) :
    RE_JS_IMPORT p cs = RE_JS_IMPORT q cs := by
  rw [RE_JS_IMPORT, RE_JS_IMPORT, Pattern.isBoundary, Pattern.isBoundary, h]

section sound

variable {cs rest specifier : List Char}

theorem suffix_of_argument (h : argument cs = some (specifier, rest)) : rest <:+ cs := by
  obtain ⟨q, q', -, hsplit⟩ := literal_eq_some_iff.mp h
  have hbehind : rest <:+ (many Text.isWhitespace cs).2 := ⟨q :: specifier ++ [q'], by
    rw [hsplit]
    simp⟩
  exact hbehind.trans (List.dropWhile_suffix Text.isWhitespace)

theorem suffix_of_spacedLiteral (h : spacedLiteral cs = some (specifier, rest)) : rest <:+ cs := by
  obtain ⟨⟨gap, behind⟩, hgap, h⟩ := Option.bind_eq_some_iff.mp h
  dsimp only at h
  obtain ⟨q, q', -, hsplit⟩ := literal_eq_some_iff.mp h
  refine ⟨gap ++ (q :: specifier ++ [q']), ?_⟩
  rw [(many1_spec hgap).1, hsplit]
  simp

theorem exists_append_of_keyword {k : String} (hk : k.toList ≠ [])
    {reader : List Char → Option (List Char × List Char)}
    (hreader : ∀ after, reader after = some (specifier, rest) → rest <:+ after)
    (h : (keyword k cs).bind reader = some (specifier, rest)) : ∃ x, x ≠ [] ∧ cs = x ++ rest := by
  obtain ⟨after, hword, h⟩ := Option.bind_eq_some_iff.mp h
  obtain ⟨y, rfl⟩ := hreader after h
  refine ⟨k.toList ++ y, fun hnil => hk (List.append_eq_nil_iff.mp hnil).1, ?_⟩
  rw [keyword_iff.mp hword, List.append_assoc]

theorem sound_wordAt : Sound wordAt := by
  intro s cs specifier rest h
  rw [wordAt, RE_JS_IMPORT] at h
  split at h
  · obtain h | ⟨-, h⟩ := Option.or_eq_some_iff.mp h
    · exact exists_append_of_keyword (by decide) (fun _ => suffix_of_spacedLiteral) h
    obtain h | ⟨-, h⟩ := Option.or_eq_some_iff.mp h <;>
      exact exists_append_of_keyword (by decide) (fun _ => suffix_of_argument) h
  · cases h

theorem sound_sideEffectAt : Sound sideEffectAt := by
  intro s cs specifier rest h
  rw [sideEffectAt] at h
  split at h
  · exact exists_append_of_keyword (by decide) (fun _ => suffix_of_spacedLiteral) h
  · cases h

end sound

theorem readings_wordAt (line : List Char) (s : Spot) (hline : '\n' ∉ line) (hs : s.AtStart) :
    readings Spot.next (onLine wordAt) 0 s line =
      (execAll RE_JS_IMPORT line).map fun x => (s.line, x) := by
  refine readings_map (fun (p : Option Char) (s' : Spot) =>
    p.any Pattern.isWordChar = s'.prev.any Pattern.isWordChar ∧ s'.line = s.line) line ?_ ?_ 0 none s
    ⟨hs.prev.symm, rfl⟩
  · rintro p s' c hc ⟨-, hs'⟩
    have hne : c ≠ '\n' := fun heq => hline (heq ▸ hc)
    exact ⟨rfl, (if_neg hne).trans hs'⟩
  · rintro p s' cs hcs ⟨hprev, hs'⟩
    rw [onLine_of_line fun hmem => hline (hcs.subset hmem), wordAt, ← RE_JS_IMPORT_congr hprev, hs']

/-- Behind something else than blanks no import without names is looked for. -/
theorem readings_sideEffectAt_of_stale {text : List Char} (hline : '\n' ∉ text) (skip : Nat)
    (hs : s.fresh = false) : readings Spot.next (onLine sideEffectAt) skip s text = [] := by
  rw [List.eq_nil_iff_forall_not_mem]
  refine forall_mem_readings (fun s' : Spot => s'.fresh = false) ?_ text skip s ?_ hs
  · intro s' cs a rest hs' h
    rw [onLine, sideEffectAt, hs'] at h
    cases h
  · intro s' c hc hs'
    rw [s'.fresh_next fun heq => hline (heq ▸ hc), hs']
    rfl

theorem readings_sideEffectAt (line : List Char) (s : Spot) (hline : '\n' ∉ line)
    (hs : s.AtStart) : readings Spot.next (onLine sideEffectAt) 0 s line =
      (RE_JS_SIDE_EFFECT line).toList.map fun x => (s.line, x) := by
  induction line generalizing s with
  | nil => rfl
  | cons c line ih =>
    have hne : c ≠ '\n' := fun heq => hline (heq ▸ List.mem_cons_self)
    have htail : '\n' ∉ line := fun hmem => hline (List.mem_cons_of_mem c hmem)
    cases hblank : isBlank c with
    | true =>
      have hnone : onLine sideEffectAt s (c :: line) = none := by
        have hword : keyword "import" (c :: line) = none := by
          rw [Option.eq_none_iff_forall_not_mem]
          intro after hafter
          obtain rfl : c = 'i' := (List.cons.inj (keyword_iff.mp hafter)).1
          exact absurd hblank (by decide)
        rw [onLine_of_line hline, sideEffectAt, hs.fresh, if_pos rfl, hword]
        rfl
      have hstart : (s.next c).AtStart := by
        refine ⟨?_, by rw [s.fresh_next hne, hs.fresh, hblank]; rfl⟩
        simp only [isBlank, Bool.or_eq_true, decide_eq_true_eq] at hblank
        obtain rfl | rfl := hblank <;> rfl
      have hpattern : RE_JS_SIDE_EFFECT (c :: line) = RE_JS_SIDE_EFFECT line := by
        rw [RE_JS_SIDE_EFFECT, RE_JS_SIDE_EFFECT, many, many, List.dropWhile_cons_of_pos hblank]
      rw [readings_cons_of_none hnone, ih _ htail hstart, hpattern, Spot.next, if_neg hne]
    | false =>
      have hstale : (s.next c).fresh = false := by
        rw [s.fresh_next hne, hblank, Bool.and_false]
      have hpattern : RE_JS_SIDE_EFFECT (c :: line) = (sideEffectAt s (c :: line)).map Prod.fst := by
        rw [RE_JS_SIDE_EFFECT, many, List.dropWhile_cons_of_neg (by simp [hblank]), sideEffectAt,
          hs.fresh, if_pos rfl]
      rw [readings, onLine_of_line hline, hpattern]
      cases sideEffectAt s (c :: line) with
      | none => exact readings_sideEffectAt_of_stale htail 0 hstale
      | some r => exact congrArg ((s.line, r.1) :: ·) (readings_sideEffectAt_of_stale htail _ hstale)

/-! ### The imports that they find -/

/-- An import on one line is not changed by what is behind the line. -/
theorem divides_placedAt (t : List Char) :
    Divides placedAt (fun a => '\n' ∉ a.form.text) ('\n' :: t) where
  extend s x a rest h := by
    obtain ⟨hform, hline⟩ := placedAt_eq_some_iff.mp h
    obtain ⟨hboundary, hwell, rfl⟩ := formAt_eq_some_iff.mp hform
    refine placedAt_eq_some_iff.mpr ⟨formAt_eq_some_iff.mpr ⟨?_, hwell, List.append_assoc ..⟩, hline⟩
    obtain ⟨c, tail, htext, -⟩ := a.form.exists_head rest
    rw [htext] at hboundary ⊢
    exact hboundary
  within s x a rest hx h ha := by
    obtain ⟨hform, hline⟩ := placedAt_eq_some_iff.mp h
    obtain ⟨hboundary, hwell, hsplit⟩ := formAt_eq_some_iff.mp hform
    have hhead : (x ++ '\n' :: t).head? = x.head? := by
      obtain ⟨c, x, rfl⟩ := List.exists_cons_of_ne_nil hx
      rfl
    rw [hhead] at hboundary
    obtain ⟨b, htext, hb⟩ | ⟨b, hx', hb⟩ := List.append_eq_append_iff.mp hsplit
    · cases b with
      | nil =>
        refine ⟨[], placedAt_eq_some_iff.mpr ⟨formAt_eq_some_iff.mpr ⟨hboundary, hwell, ?_⟩, hline⟩,
          hb.symm⟩
        rw [htext]
        simp
      | cons c b =>
        obtain rfl := (List.cons.inj hb).1
        exact absurd (by rw [htext]; exact List.mem_append_right _ List.mem_cons_self) ha
    · exact ⟨b, placedAt_eq_some_iff.mpr ⟨formAt_eq_some_iff.mpr ⟨hboundary, hwell, hx'⟩, hline⟩, hb⟩

/-- No import begins at the end of a line. -/
theorem placedAt_newline (t : List Char) : placedAt s ('\n' :: t) = none := by
  rw [Option.eq_none_iff_forall_not_mem]
  rintro ⟨p, rest⟩ h
  obtain ⟨-, -, hcs⟩ := formAt_eq_some_iff.mp (placedAt_eq_some_iff.mp h).1
  obtain ⟨c, tail, htext, hc⟩ := p.form.exists_head rest
  obtain rfl := (List.cons.inj (hcs.trans htext)).1
  exact absurd hc (by decide)

theorem filter_placedAt_append {counts : Placed → Bool}
    (hcounts : ∀ a, counts a = true → '\n' ∉ a.form.text) (line t : List Char) :
    (placedAt s (line ++ '\n' :: t)).filter (counts ·.1) =
      ((placedAt s line).filter (counts ·.1)).map fun r => (r.1, r.2 ++ '\n' :: t) := by
  refine Option.ext fun r => ?_
  obtain ⟨a, rest⟩ := r
  rw [Option.filter_eq_some_iff, Option.map_eq_some_iff]
  constructor
  · rintro ⟨hread, ha⟩
    cases line with
    | nil =>
      rw [List.nil_append, placedAt_newline] at hread
      cases hread
    | cons c line =>
      obtain ⟨rest', hread', rfl⟩ :=
        (divides_placedAt t).within s _ a rest (List.cons_ne_nil c line) hread (hcounts a ha)
      exact ⟨(a, rest'), Option.filter_eq_some_iff.mpr ⟨hread', ha⟩, rfl⟩
  · rintro ⟨⟨b, rest'⟩, h, heq⟩
    cases heq
    obtain ⟨hread, hb⟩ := Option.filter_eq_some_iff.mp h
    exact ⟨(divides_placedAt t).extend s line b rest' hread, hb⟩

/-- A pattern that reads imports of a kind on a line reads those of the whole text. -/
theorem onLine_eq {counts : Placed → Bool} (hcounts : ∀ a, counts a = true → '\n' ∉ a.form.text)
    (hpattern : ∀ line, '\n' ∉ line → pattern s line =
      ((placedAt s line).filter (counts ·.1)).map fun r => (r.1.form.specifier, r.2))
    (cs : List Char) : onLine pattern s cs =
      ((placedAt s cs).filter (counts ·.1)).map fun r => (r.1.entry, r.2) := by
  have hentry (line : List Char) (hline : '\n' ∉ line) : onLine pattern s line =
      ((placedAt s line).filter (counts ·.1)).map fun r => (r.1.entry, r.2) := by
    rw [onLine_of_line hline, hpattern line hline, Option.map_map]
    cases hread : placedAt s line with
    | none => rfl
    | some r =>
      have hplace := (placedAt_eq_some_iff.mp hread).2.1
      cases hr : counts r.1 <;> simp [Option.filter, hr, Placed.entry, hplace]
  have hfree : '\n' ∉ cs.takeWhile (· ≠ '\n') := fun hmem => by
    simpa using List.mem_takeWhile_imp hmem
  obtain h | ⟨c, t, hc, h⟩ := Lists.takeWhile_cases (· ≠ '\n') cs
  · exact hentry cs (h ▸ hfree)
  · obtain rfl : c = '\n' := by simpa using hc
    rw [h, onLine_append_newline, hentry _ hfree, filter_placedAt_append hcounts, Option.map_map,
      Option.map_map]
    rfl

theorem Spot.sane_next (s : Spot) (c : Char) : (s.next c).Sane := by
  intro hfresh
  simp only [Spot.next, isBlank, Bool.or_eq_true, Bool.and_eq_true, decide_eq_true_eq] at hfresh
  obtain rfl | ⟨-, rfl | rfl⟩ := hfresh <;> rfl

theorem Spot.Sane.foldl (hs : s.Sane) (front : List Char) : (front.foldl Spot.next s).Sane := by
  induction front generalizing s with
  | nil => exact hs
  | cons c front ih => exact ih (s.sane_next c)

theorem atStart_default : ({} : Spot).AtStart := ⟨rfl, rfl⟩

/-- What a pattern finds on the lines of a text, if it is what it finds at its places. -/
theorem readings_onLine_content {found : List Char → List (List Char)} (hsound : Sound pattern)
    (hfound : ∀ line (s : Spot), '\n' ∉ line → s.AtStart →
      readings Spot.next (onLine pattern) 0 s line = (found line).map fun x => (s.line, x))
    (content : List Char) : readings Spot.next (onLine pattern) 0 {} content =
      numbered found 0 (content.splitOn '\n') := by
  have hlines := readings_onLine_intercalate hsound hfound (content.splitOn '\n')
    (fun line hline => Path.not_mem_of_mem_splitOn hline) {} 0 atStart_default rfl
    (List.splitOn_ne_nil _ _)
  rwa [List.intercalate_splitOn] at hlines

/-- A pattern for imports of a kind finds these in a text, if it finds no other one inside one that
is of another kind. -/
theorem readings_onLine_eq (fine : Placed → Prop) {counts : Placed → Bool} {content : List Char}
    (hcounts : ∀ a, counts a = true → '\n' ∉ a.form.text)
    (hpattern : ∀ s : Spot, s.Sane → ∀ line, '\n' ∉ line → pattern s line =
      ((placedAt s line).filter (counts ·.1)).map fun r => (r.1.form.specifier, r.2))
    (hinside : ∀ (s : Spot) (a : Placed), a.form.WellFormed → counts a = false → fine a →
      ∀ front c back rest, front ≠ [] → a.form.text = front ++ c :: back →
        ∀ b rest', placedAt (front.foldl Spot.next s) (c :: back ++ rest) = some (b, rest') →
          counts b = false)
    (hfine : ∀ a ∈ placedImports {} content, fine a) :
    readings Spot.next (onLine pattern) 0 {} content =
      ((placedImports {} content).filter counts).map Placed.entry := by
  refine readings_filter Spot.Sane sound_placedAt (fun s c _ => s.sane_next c)
    (fun s cs hs => onLine_eq hcounts (hpattern s hs) cs) ?_ _ content {} rfl
    (fun _ => rfl) hfine
  intro s x rest a hs hread ha hfine front c back hfront hx
  obtain ⟨-, hwell, hsplit⟩ := formAt_eq_some_iff.mp (placedAt_eq_some_iff.mp hread).1
  obtain rfl := List.append_cancel_right hsplit
  rw [onLine_eq hcounts (hpattern _ (hs.foldl front))]
  have hnone : (placedAt (front.foldl Spot.next s) (c :: back ++ rest)).filter (counts ·.1) =
      none := by
    rw [Option.filter_eq_none_iff]
    intro r hr
    simp [hinside s a hwell ha hfine front c back rest hfront hx r.1 r.2 hr]
  rw [hnone]
  rfl

theorem numbered_RE_JS_IMPORT {content : List Char}
    (hinert : ∀ a ∈ placedImports {} content, a.isWorded = true ∨
      opensImport a.form.specifier = false) :
    numbered (execAll RE_JS_IMPORT) 0 (content.splitOn '\n') =
      ((placedImports {} content).filter (·.isWorded)).map Placed.entry := by
  rw [← readings_onLine_content sound_wordAt readings_wordAt]
  refine readings_onLine_eq _ (fun a ha => (Placed.isWorded_iff.mp ha).1.line)
    (fun s _ line hline => wordAt_eq s hline) ?_ hinert
  intro s a hwell ha hinert front c back rest hfront hsplit b rest' hread
  have hcloses : opensImport a.form.specifier = false :=
    hinert.resolve_left (by rw [ha]; exact Bool.false_ne_true)
  exact not_isWorded_inside hwell hcloses hsplit hfront hread

theorem numbered_RE_JS_SIDE_EFFECT (content : List Char) :
    numbered (fun line => (RE_JS_SIDE_EFFECT line).toList) 0 (content.splitOn '\n') =
      ((placedImports {} content).filter (·.isBare)).map Placed.entry := by
  rw [← readings_onLine_content sound_sideEffectAt readings_sideEffectAt]
  refine readings_onLine_eq (fun _ => True) (fun a ha => (Placed.isBare_iff.mp ha).1.line)
    (fun s hs line hline => sideEffectAt_eq hs hline) ?_ fun _ _ => trivial
  intro s a hwell _ _ front c back rest hfront hsplit b rest' hread
  exact not_isBare_inside hwell hsplit hfront hread

end KirkForge.ImportLint
