import KirkForge.Theory.JsonRead
import KirkForge.Theory.Occurrence

/-!
# Patterns in JSON text

Patterns of signs to which JSON gives no meaning. A string that is read from a text has the pattern
only if the text has it, provided that no escape in the text spells a sign of the pattern. A part of
such a text has no other escapes if it begins behind anything but a backslash, or with a bracket,
of which there is no escape.
-/

namespace KirkForge.Json

/-- A sign that is written as it is, and that is used for nothing else. -/
def Plain (c : Char) : Prop :=
  0x20 < c.toNat ∧ c.toNat < 0xD800 ∧ c.isAlphanum = false ∧ c ∉ r#""\[]{},:.+-"#.toList

instance (c : Char) : Decidable (Plain c) := inferInstanceAs (Decidable (_ ∧ _ ∧ _ ∧ _))

/-- The code that an escape stands for, by the character behind the backslash and the rest. -/
def escapeCode (e : Char) (cs : List Char) : Option Nat :=
  if e = 'u' ∧ 4 ≤ cs.length then hexDigits (cs.take 4) else escape e

/-- No escape, as they are read from the front, spells a sign of the pattern or a bracket. -/
def Unescaped (pattern : List Char) : List Char → Prop
  | [] => True
  | c :: cs =>
    if c = '\\' then
      match cs with
      | [] => True
      | e :: cs =>
        ((∀ d ∈ pattern, escapeCode e cs ≠ some d.toNat) ∧ e ≠ '[') ∧ Unescaped pattern cs
    else Unescaped pattern cs

variable {pattern cs rest front back : List Char}

theorem unescaped_cons {c : Char} (hc : c ≠ '\\') :
    Unescaped pattern (c :: cs) ↔ Unescaped pattern cs := by
  rw [Unescaped.eq_def]
  exact Iff.of_eq (if_neg hc)

theorem unescaped_escape {e : Char} : Unescaped pattern ('\\' :: e :: cs) ↔
    ((∀ d ∈ pattern, escapeCode e cs ≠ some d.toNat) ∧ e ≠ '[') ∧ Unescaped pattern cs := by
  rw [Unescaped.eq_def]
  exact Iff.of_eq (if_pos rfl)

theorem unescaped_append_of_notMem (hfront : '\\' ∉ front) :
    Unescaped pattern (front ++ cs) ↔ Unescaped pattern cs := by
  induction front with
  | nil => rfl
  | cons c front ih =>
    rw [List.cons_append, unescaped_cons (List.ne_of_not_mem_cons hfront).symm,
      ih (List.not_mem_of_not_mem_cons hfront)]

/-- A part that does not begin behind a backslash has no other escapes. -/
theorem Unescaped.right (h : Unescaped pattern (front ++ cs))
    (hfront : front.getLast? ≠ some '\\') : Unescaped pattern cs := by
  induction front using List.twoStepInduction with
  | nil => exact h
  | singleton c =>
    have hc : c ≠ '\\' := fun heq => hfront (congrArg some heq)
    exact (unescaped_cons hc).mp h
  | cons_cons c d front ih ih' =>
    by_cases hc : c = '\\'
    · subst hc
      rw [List.cons_append, List.cons_append, unescaped_escape] at h
      cases front with
      | nil => exact h.2
      | cons e front =>
        apply ih h.2
        rwa [List.getLast?_cons_cons, List.getLast?_cons_cons] at hfront
    · rw [List.cons_append, unescaped_cons hc] at h
      apply ih' d h
      rwa [List.getLast?_cons_cons] at hfront

/-- Neither does a part that begins with a bracket. -/
theorem Unescaped.bracket (h : Unescaped pattern (front ++ '[' :: cs)) :
    Unescaped pattern ('[' :: cs) := by
  induction front using List.twoStepInduction with
  | nil => exact h
  | singleton c =>
    by_cases hc : c = '\\'
    · subst hc
      exact absurd rfl (unescaped_escape.mp h).1.2
    · exact (unescaped_cons hc).mp h
  | cons_cons c d front ih ih' =>
    by_cases hc : c = '\\'
    · subst hc
      exact ih (unescaped_escape.mp h).2
    · exact ih' d ((unescaped_cons hc).mp h)

theorem escapeCode_append {e : Char} {n : Nat} (h : escapeCode e cs = some n) :
    escapeCode e (cs ++ back) = some n := by
  rw [escapeCode] at h ⊢
  split at h
  · next hu =>
    have hlen : 4 ≤ (cs ++ back).length := by
      rw [List.length_append]
      exact Nat.le_add_right_of_le hu.2
    rw [if_pos ⟨hu.1, hlen⟩, List.take_append_of_le_length hu.2]
    exact h
  · have hne : e ≠ 'u' := by
      rintro rfl
      cases h
    rw [if_neg fun hu => hne hu.1]
    exact h

theorem Unescaped.left (h : Unescaped pattern (cs ++ back)) : Unescaped pattern cs := by
  induction cs using List.twoStepInduction with
  | nil => trivial
  | singleton c =>
    rw [Unescaped.eq_def]
    dsimp only
    split <;> trivial
  | cons_cons c d cs ih ih' =>
    by_cases hc : c = '\\'
    · subst hc
      rw [List.cons_append, List.cons_append, unescaped_escape] at h
      exact unescaped_escape.mpr
        ⟨⟨fun e he heq => h.1.1 e he (escapeCode_append heq), h.1.2⟩, ih h.2⟩
    · rw [List.cons_append, unescaped_cons hc] at h
      exact (unescaped_cons hc).mpr (ih' d h)

/-! ### String literals -/

theorem backslash_notMem_hexDigits {n : Nat} (h : hexDigits cs = some n) : '\\' ∉ cs := by
  suffices hfold : ∀ (start : Nat) (cs : List Char) (n : Nat),
      cs.foldlM (fun n c => (hexDigit c).map (16 * n + ·)) start = some n → '\\' ∉ cs from
    hfold 0 cs n h
  intro start cs
  induction cs generalizing start with
  | nil => exact fun _ _ => List.not_mem_nil
  | cons c cs ih =>
    intro n h
    rw [List.foldlM_cons] at h
    obtain ⟨m, hm, h⟩ := Option.bind_eq_some_iff.mp h
    refine List.not_mem_cons_of_ne_of_not_mem ?_ (ih m n h)
    rintro rfl
    cases hm

/-- Behind something that is not of the pattern. -/
theorem map_prefix_cons {ns : List Nat} {n : Nat} {q : List Char} (hq : ∀ c ∈ q, c ∈ pattern)
    (hn : ∀ d ∈ pattern, n ≠ d.toNat) (h : q.map Char.toNat <+: n :: ns) : q = [] := by
  cases q with
  | nil => rfl
  | cons c q =>
    have hc := (List.cons_prefix_cons.mp h).1
    exact absurd hc.symm (hn c (hq c List.mem_cons_self))

/-- What the pattern's characters are in the codes that are read. -/
structure Shows (pattern cs : List Char) (ns : List Nat) : Prop where
  start : ∀ q, (∀ c ∈ q, c ∈ pattern) → q.map Char.toNat <+: ns → q <+: cs
  within : ∀ q, (∀ c ∈ q, c ∈ pattern) → q ≠ [] → q.map Char.toNat <:+: ns → q <:+: cs

theorem Shows.nil (pattern cs : List Char) : Shows pattern cs [] where
  start q _ h := by
    rw [List.prefix_nil, List.map_eq_nil_iff] at h
    exact h ▸ List.nil_prefix
  within q _ hne h := absurd (List.map_eq_nil_iff.mp (List.infix_nil.mp h)) hne

theorem Shows.escape {ns : List Nat} {n : Nat} (h : Shows pattern cs ns)
    (hn : ∀ d ∈ pattern, n ≠ d.toNat) (front : List Char) :
    Shows pattern (front ++ cs) (n :: ns) where
  start q hq hfirst := map_prefix_cons hq hn hfirst ▸ List.nil_prefix
  within q hq hne hpart := by
    rcases List.infix_cons_iff.mp hpart with hfirst | hpart
    · exact absurd (map_prefix_cons hq hn hfirst) hne
    · exact (h.within q hq hne hpart).trans (List.suffix_append front cs).isInfix

theorem Shows.cons {ns : List Nat} (h : Shows pattern cs ns) (c : Char) :
    Shows pattern (c :: cs) (c.toNat :: ns) := by
  have hstart : ∀ q, (∀ c ∈ q, c ∈ pattern) → q.map Char.toNat <+: c.toNat :: ns →
      q <+: c :: cs := by
    intro q hq hfirst
    cases q with
    | nil => exact List.nil_prefix
    | cons d q =>
      obtain ⟨hd, htail⟩ := List.cons_prefix_cons.mp hfirst
      obtain rfl := Char.toNat_inj.mp hd
      exact List.cons_prefix_cons.mpr
        ⟨rfl, h.start q (fun c hc => hq c (List.mem_cons_of_mem _ hc)) htail⟩
  refine ⟨hstart, fun q hq hne hpart => ?_⟩
  rcases List.infix_cons_iff.mp hpart with hfirst | hpart
  · exact (hstart q hq hfirst).isInfix
  · exact List.infix_cons (h.within q hq hne hpart)

/-- The codes of a string literal have a pattern only if its text has it. -/
theorem units_unescaped {r : List Nat × List Char} (h : units cs = some r)
    (hcs : Unescaped pattern cs) :
    Shows pattern cs r.1 ∧ Unescaped pattern r.2 ∧ r.2 <:+ cs := by
  fun_induction units cs generalizing r with
  | case1 => cases h
  | case2 cs =>
    cases h
    exact ⟨Shows.nil _ _, (unescaped_cons (by decide)).mp hcs, List.suffix_cons _ _⟩
  | case3 a b c d cs _ ih =>
    obtain ⟨n, hn, h⟩ := Option.bind_eq_some_iff.mp h
    obtain ⟨r, hr, rfl⟩ := Option.map_eq_some_iff.mp h
    obtain ⟨hcode, hcs⟩ := unescaped_escape.mp hcs
    have hdigits : Unescaped pattern ([a, b, c, d] ++ cs) ↔ Unescaped pattern cs :=
      unescaped_append_of_notMem (backslash_notMem_hexDigits hn)
    have hcs : Unescaped pattern cs := hdigits.mp hcs
    obtain ⟨hshows, hrest, hsuffix⟩ := ih hr hcs
    have hne : ∀ e ∈ pattern, n ≠ e.toNat := by
      rintro e he rfl
      exact hcode.1 e he (by rw [escapeCode, if_pos ⟨rfl, by simp⟩]; exact hn)
    exact ⟨hshows.escape hne ['\\', 'u', a, b, c, d], hrest,
      hsuffix.trans (List.suffix_append ['\\', 'u', a, b, c, d] cs)⟩
  | case4 e cs hu _ ih =>
    obtain ⟨n, hn, h⟩ := Option.bind_eq_some_iff.mp h
    obtain ⟨r, hr, rfl⟩ := Option.map_eq_some_iff.mp h
    obtain ⟨hcode, hcs⟩ := unescaped_escape.mp hcs
    obtain ⟨hshows, hrest, hsuffix⟩ := ih hr hcs
    have hne : ∀ d ∈ pattern, n ≠ d.toNat := by
      rintro d hd rfl
      refine hcode.1 d hd ?_
      rw [escapeCode, if_neg]
      · exact hn
      · rintro ⟨rfl, -⟩
        cases hn
    exact ⟨hshows.escape hne ['\\', e], hrest, hsuffix.trans (List.suffix_append ['\\', e] cs)⟩
  | case5 => cases h
  | case6 => cases h
  | case7 c cs _ hc _ ih =>
    obtain ⟨r, hr, rfl⟩ := Option.map_eq_some_iff.mp h
    obtain ⟨hshows, hrest, hsuffix⟩ := ih hr ((unescaped_cons hc).mp hcs)
    exact ⟨hshows.cons c, hrest, hsuffix.trans (List.suffix_cons c cs)⟩

theorem toNat_ofNat_of_plain {n : Nat} (h : Plain (Char.ofNat n)) : (Char.ofNat n).toNat = n := by
  by_cases hn : n.isValidChar
  · rw [Char.ofNat, dif_pos hn]
    rfl
  · rw [Char.ofNat, dif_neg hn] at h
    exact absurd h (by decide)

/-- A plain character is not the half of a pair. -/
theorem toNat_unit {n : Nat}
    (h : Plain (if isHigh n || isLow n then '\uFFFD' else Char.ofNat n)) :
    (if isHigh n || isLow n then '\uFFFD' else Char.ofNat n).toNat = n := by
  split at h
  · exact absurd h (by decide)
  · next hn =>
    rw [if_neg hn]
    exact toNat_ofNat_of_plain h

/-- Neither is it a pair. -/
theorem not_plain_pair (n m : Nat) :
    ¬Plain (Char.ofNat (0x10000 + (n - 0xD800) * 0x400 + (m - 0xDC00))) := by
  intro h
  have hnat := toNat_ofNat_of_plain h
  have hlt := h.2.1
  omega

theorem map_prefix_of_chars {q : List Char} {ns : List Nat} (hq : ∀ c ∈ q, Plain c)
    (h : q <+: chars ns) : q.map Char.toNat <+: ns := by
  fun_induction chars ns generalizing q with
  | case1 => exact List.prefix_nil.mp h ▸ List.prefix_rfl
  | case2 n =>
    cases q with
    | nil => exact List.nil_prefix
    | cons c q =>
      obtain ⟨rfl, htail⟩ := List.cons_prefix_cons.mp h
      rw [List.prefix_nil.mp htail, List.map_singleton, toNat_unit (hq _ List.mem_cons_self)]
  | case3 n m rest =>
    cases q with
    | nil => exact List.nil_prefix
    | cons c q =>
      have hc := hq c List.mem_cons_self
      rw [(List.cons_prefix_cons.mp h).1] at hc
      exact absurd hc (not_plain_pair n m)
  | case4 n m rest _ ih =>
    cases q with
    | nil => exact List.nil_prefix
    | cons c q =>
      obtain ⟨rfl, htail⟩ := List.cons_prefix_cons.mp h
      obtain ⟨hc, hq⟩ := List.forall_mem_cons.mp hq
      rw [List.map_cons, toNat_unit hc]
      exact List.cons_prefix_cons.mpr ⟨rfl, ih hq htail⟩

theorem map_infix_of_chars {q : List Char} {ns : List Nat} (hq : ∀ c ∈ q, Plain c) (hne : q ≠ [])
    (h : q <:+: chars ns) : q.map Char.toNat <:+: ns := by
  have hall (ns : List Nat) (h : q <+: chars ns) : q.map Char.toNat <+: ns :=
    map_prefix_of_chars hq h
  fun_induction chars ns with
  | case1 => exact absurd (List.infix_nil.mp h) hne
  | case2 n =>
    rcases List.infix_cons_iff.mp h with hfirst | hpart
    · exact (hall [n] hfirst).isInfix
    · exact absurd (List.infix_nil.mp hpart) hne
  | case3 n m rest hpair ih =>
    rcases List.infix_cons_iff.mp h with hfirst | hpart
    · refine (hall (n :: m :: rest) ?_).isInfix
      rw [chars, if_pos hpair]
      exact hfirst
    · exact (ih hpart).trans (List.suffix_append [n, m] rest).isInfix
  | case4 n m rest hpair ih =>
    rcases List.infix_cons_iff.mp h with hfirst | hpart
    · refine (hall (n :: m :: rest) ?_).isInfix
      rw [chars, if_neg hpair]
      exact hfirst
    · exact (ih hpart).trans (List.suffix_cons n _).isInfix

/-- A text without the pattern, in which no escape spells one of its characters. -/
structure Lacks (pattern cs : List Char) : Prop where
  absent : ¬pattern <:+: cs
  unescaped : Unescaped pattern cs

theorem Lacks.drop (h : Lacks pattern (front ++ cs)) (hfront : '\\' ∉ front) :
    Lacks pattern cs where
  absent hpart := h.absent (hpart.trans (List.suffix_append _ _).isInfix)
  unescaped := (unescaped_append_of_notMem hfront).mp h.unescaped

theorem string_lacks (hplain : ∀ c ∈ pattern, Plain c) (hne : pattern ≠ []) (h : Lacks pattern cs)
    {r : String × List Char} (hr : string cs = some r) :
    ¬pattern <:+: r.1.toList ∧ Lacks pattern r.2 := by
  obtain ⟨r, hunits, rfl⟩ := Option.map_eq_some_iff.mp hr
  obtain ⟨hshows, hrest, hsuffix⟩ := units_unescaped hunits h.unescaped
  refine ⟨fun hpart => h.absent ?_, fun hpart => h.absent (hpart.trans hsuffix.isInfix), hrest⟩
  rw [String.toList_ofList] at hpart
  exact hshows.within _ (fun _ hc => hc) hne (map_infix_of_chars hplain hne hpart)

end KirkForge.Json
