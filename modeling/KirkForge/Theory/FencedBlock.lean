import KirkForge.Theory.Occurrence
import Mathlib.Data.List.TakeWhile

/-!
# Blocks between marks

What stands between the first mark of a text and the next one, but for what is skipped behind the
first. There is such a block exactly when two marks stand in the text that do not overlap. What
stands around a text without a mark of its own does not change the block.
-/

namespace KirkForge.Fenced

open Text (indexOf)

/-- The group of a pattern that consists of a mark, something that is skipped, the group, as short
as possible, and a mark. -/
def block (mark : List Char) (skip : List Char → List Char) (cs : List Char) :
    Option (List Char) :=
  (indexOf mark cs).bind fun start =>
    let body := skip (cs.drop (start + mark.length))
    (indexOf mark body).map body.take

/-- Two marks that do not overlap. -/
def Twice (mark cs : List Char) : Prop := ∃ a b c, cs = a ++ (mark ++ (b ++ (mark ++ c)))

/-- What is skipped has no part of a mark, and in front of a mark it does not depend on what comes
behind that. -/
structure Skips (mark : List Char) (skip : List Char → List Char) : Prop where
  drops : ∀ opened, ∃ skipped, opened = skipped ++ skip opened ∧ ∀ c ∈ skipped, c ∉ mark
  append : ∀ opened back, mark <:+: opened → skip (opened ++ back) = skip opened ++ back

variable {mark cs front back opened body : List Char} {skip : List Char → List Char} {a : Char}

theorem infix_skip (hmark : mark ≠ []) (hskip : Skips mark skip) :
    mark <:+: skip opened ↔ mark <:+: opened := by
  obtain ⟨skipped, hopened, hskipped⟩ := hskip.drops opened
  conv_rhs => rw [hopened]
  exact (Text.infix_append_of_notMem hmark hskipped).symm

theorem block_eq_some (h : block mark skip cs = some body) : ∃ start stop,
    indexOf mark cs = some start ∧
      indexOf mark (skip (cs.drop (start + mark.length))) = some stop ∧
        body = (skip (cs.drop (start + mark.length))).take stop := by
  obtain ⟨start, hstart, h⟩ := Option.bind_eq_some_iff.mp h
  obtain ⟨stop, hstop, rfl⟩ := Option.map_eq_some_iff.mp h
  exact ⟨start, stop, hstart, hstop, rfl⟩

theorem length_add_le (hmark : mark ≠ []) {start : Nat}
    (h : mark <:+: cs.drop (start + mark.length)) : start + mark.length ≤ cs.length := by
  by_contra hlt
  rw [List.drop_eq_nil_of_le (by omega)] at h
  exact hmark (List.infix_nil.mp h)

/-- A block that is found is found in front of anything that is appended. -/
theorem block_append_right (hmark : mark ≠ []) (hskip : Skips mark skip)
    (h : block mark skip cs = some body) : block mark skip (cs ++ back) = some body := by
  obtain ⟨start, stop, hstart, hstop, rfl⟩ := block_eq_some h
  have hinside : mark <:+: cs.drop (start + mark.length) := by
    by_contra hno
    rw [← infix_skip hmark hskip, ← Text.indexOf_eq_none_iff] at hno
    exact nomatch hno.symm.trans hstop
  have hdrop : (cs ++ back).drop (start + mark.length) = cs.drop (start + mark.length) ++ back :=
    List.drop_append_of_le_length (length_add_le hmark hinside)
  have htake : stop ≤ (skip (cs.drop (start + mark.length))).length := by
    by_contra hlt
    have hfirst := Text.prefix_drop_of_indexOf hstop
    rw [List.drop_eq_nil_of_le (by omega)] at hfirst
    exact hmark (List.prefix_nil.mp hfirst)
  rw [block, Text.indexOf_append_right hstart, Option.bind_some]
  dsimp only
  rw [hdrop, hskip.append _ _ hinside, Text.indexOf_append_right hstop, Option.map_some,
    List.take_append_of_le_length htake]

/-- A block is not looked for in a front without a mark. -/
theorem block_append_left (hfront : ¬mark <:+: front) (ha : a ∉ mark) :
    block mark skip (front ++ a :: cs) = block mark skip (a :: cs) := by
  have hnone : ∀ i < front.length, ¬mark <+: front.drop i ++ a :: cs := by
    intro i _ hfirst
    rw [Text.prefix_append_cons ha] at hfirst
    exact hfront (hfirst.isInfix.trans (List.drop_suffix i front).isInfix)
  rw [block, block, Text.indexOf_append hnone]
  cases indexOf mark (a :: cs) with
  | none => rfl
  | some start =>
    rw [Option.map_some, Option.bind_some, Option.bind_some, Nat.add_assoc,
      ← List.drop_drop, List.drop_left]

/-- The text goes on with a mark and the block. -/
theorem exists_append_of_block (hskip : Skips mark skip) (h : block mark skip cs = some body) :
    ∃ before skipped behind, cs = before ++ (mark ++ (skipped ++ (body ++ behind))) := by
  obtain ⟨start, stop, hstart, -, rfl⟩ := block_eq_some h
  obtain ⟨opened, hopened⟩ := Text.prefix_drop_of_indexOf hstart
  have hdrop : cs.drop (start + mark.length) = opened := by
    rw [← List.drop_drop, ← hopened, List.drop_left]
  obtain ⟨skipped, hsplit, -⟩ := hskip.drops opened
  refine ⟨cs.take start, skipped, (skip opened).drop stop, ?_⟩
  rw [hdrop, List.take_append_drop, ← hsplit, hopened, List.take_append_drop]

theorem twice_of_block (hmark : mark ≠ []) (hskip : Skips mark skip)
    (h : block mark skip cs = some body) : Twice mark cs := by
  obtain ⟨start, stop, hstart, hstop, -⟩ := block_eq_some h
  obtain ⟨opened, hopened⟩ := Text.prefix_drop_of_indexOf hstart
  have hdrop : cs.drop (start + mark.length) = opened := by
    rw [← List.drop_drop, ← hopened, List.drop_left]
  have hinside : mark <:+: opened := by
    rw [← hdrop, ← infix_skip hmark hskip]
    by_contra hno
    rw [← Text.indexOf_eq_none_iff] at hno
    exact nomatch hno.symm.trans hstop
  obtain ⟨b, c, hbc⟩ := hinside
  refine ⟨cs.take start, b, c, ?_⟩
  rw [← List.append_assoc b, hbc, hopened, List.take_append_drop]

theorem block_of_twice (hmark : mark ≠ []) (hskip : Skips mark skip) (h : Twice mark cs) :
    ∃ body, block mark skip cs = some body := by
  have hfound {l : List Char} (hl : mark <:+: l) : ∃ i, indexOf mark l = some i :=
    Option.ne_none_iff_exists'.mp (mt Text.indexOf_eq_none_iff.mp (not_not.mpr hl))
  obtain ⟨a, b, c, rfl⟩ := h
  obtain ⟨start, hstart⟩ := hfound ⟨a, b ++ (mark ++ c), List.append_assoc ..⟩
  have hle : start ≤ a.length := by
    have hpos := List.length_pos_iff.mpr hmark
    refine Text.indexOf_le hstart ?_ (by simp; omega)
    rw [List.drop_left]
    exact List.prefix_append _ _
  -- the first mark ends no later than the one in front of `b`
  have hdrop : b ++ (mark ++ c) <:+
      (a ++ (mark ++ (b ++ (mark ++ c)))).drop (start + mark.length) := by
    rw [← List.append_assoc a, List.drop_append_of_le_length]
    · exact List.suffix_append _ _
    · rw [List.length_append]
      exact Nat.add_le_add_right hle _
  have hinside : mark <:+: b ++ (mark ++ c) := ⟨b, c, List.append_assoc ..⟩
  obtain ⟨stop, hstop⟩ := hfound ((infix_skip hmark hskip).mpr (hinside.trans hdrop.isInfix))
  rw [block, hstart, Option.bind_some]
  dsimp only
  rw [hstop]
  exact ⟨_, rfl⟩

theorem block_eq_none_iff (hmark : mark ≠ []) (hskip : Skips mark skip) :
    block mark skip cs = none ↔ ¬Twice mark cs := by
  constructor
  · intro h htwice
    obtain ⟨body, hbody⟩ := block_of_twice hmark hskip htwice
    exact nomatch h.symm.trans hbody
  · intro h
    by_contra hsome
    obtain ⟨body, hbody⟩ := Option.ne_none_iff_exists'.mp hsome
    exact h (twice_of_block hmark hskip hbody)

theorem Twice.append (h : Twice mark cs) (back : List Char) : Twice mark (cs ++ back) := by
  obtain ⟨a, b, c, rfl⟩ := h
  exact ⟨a, b, c ++ back, by simp⟩

/-- Neither mark begins in a part that has none and is set off. -/
theorem Twice.of_append (ha : a ∉ mark) (hback : ¬mark <:+: back)
    (h : Twice mark (cs ++ a :: back)) : Twice mark cs := by
  obtain ⟨x, y, z, heq⟩ := h
  have hassoc : x ++ (mark ++ (y ++ (mark ++ z))) = (x ++ (mark ++ (y ++ mark))) ++ z := by simp
  rw [hassoc] at heq
  rcases List.append_eq_append_iff.mp heq with ⟨tail, htail, hback'⟩ | ⟨tail, rfl, -⟩
  · have hsuffix : mark <:+ cs ++ tail := by
      rw [← htail]
      exact ⟨x ++ (mark ++ y), by simp⟩
    cases tail with
    | nil =>
      rw [List.append_nil] at htail
      exact ⟨x, y, [], by rw [← htail, List.append_nil]⟩
    | cons d tail =>
      obtain ⟨rfl, rfl⟩ := List.cons.inj hback'
      exfalso
      have hcut : a :: tail <:+ cs ++ a :: tail := List.suffix_append _ _
      rcases List.suffix_or_suffix_of_suffix hsuffix hcut with h | h
      · rcases List.suffix_cons_iff.mp h with h | h
        · exact ha (h ▸ List.mem_cons_self)
        · exact hback (h.isInfix.trans (List.prefix_append _ _).isInfix)
      · exact ha (h.subset List.mem_cons_self)
  · exact ⟨x, y, tail, by simp⟩

/-- Around a text that does not begin or end with a part of a mark nothing makes a difference that
has no mark itself. -/
theorem block_around (hmark : mark ≠ []) (hskip : Skips mark skip) {b : Char} {text : List Char}
    (ha : a ∉ mark) (hb : b ∉ mark) (hfront : ¬mark <:+: front) (hback : ¬mark <:+: back) :
    block mark skip (front ++ (a :: text ++ b :: back)) =
      block mark skip (a :: text ++ [b]) := by
  have hleft : block mark skip (front ++ (a :: (text ++ b :: back))) =
      block mark skip (a :: (text ++ b :: back)) := block_append_left hfront ha
  rw [List.cons_append, hleft, ← List.cons_append]
  cases hblock : block mark skip (a :: text ++ [b]) with
  | some body =>
    have hsplit : a :: text ++ b :: back = (a :: text ++ [b]) ++ back := by simp
    rw [hsplit, block_append_right hmark hskip hblock]
  | none =>
    rw [block_eq_none_iff hmark hskip] at hblock ⊢
    exact fun htwice => hblock ((htwice.of_append hb hback).append [b])

end KirkForge.Fenced
