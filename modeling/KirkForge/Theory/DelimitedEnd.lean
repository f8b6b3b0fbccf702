import KirkForge.Theory.Delimited

/-!
# Bracketed texts at the end of a text

A balanced text between brackets that escapes characters only inside of literals is found again at
the end of any text: no other one ends there (`enclosed_eq_of_append`). A second one would begin
inside of a literal, so that the two readings are on different sides of every quote up to the end,
or at a lower level of brackets, which only the last bracket leads to.
-/

namespace KirkForge.Delimited

/-- The reader is outside of literals. -/
def Mode.isCode : Mode → Bool
  | code _ => true
  | literal _ | escape _ => false

/-- No backslash is read outside of literals. -/
def EscapesInside : Mode → List Char → Prop
  | _, [] => True
  | m, c :: cs => ¬(m.isCode = true ∧ c = '\\') ∧ EscapesInside (m.next c) cs

theorem escapesInside_append {m : Mode} {cs ds : List Char} :
    EscapesInside m (cs ++ ds) ↔ EscapesInside m cs ∧ EscapesInside (m.after cs) ds := by
  induction cs generalizing m with
  | nil => simp [EscapesInside]
  | cons c cs ih => simp only [List.cons_append, EscapesInside, ih, after_cons, and_assoc]

/-- A text outside of literals. -/
def Tidy (cs : List Char) : Prop := ∀ n, EscapesInside (.code n) cs

theorem Tidy.nil : Tidy [] := fun _ => trivial

theorem Tidy.append {cs ds : List Char} (hbalanced : Balanced cs) (hc : Tidy cs) (hd : Tidy ds) :
    Tidy (cs ++ ds) := by
  intro n
  rw [escapesInside_append, hbalanced.after]
  exact ⟨hc n, hd n⟩

/-- Where no character is a backslash none is outside of literals. -/
theorem escapesInside_of_notMem {m : Mode} {cs : List Char} (h : '\\' ∉ cs) :
    EscapesInside m cs := by
  induction cs generalizing m with
  | nil => trivial
  | cons c cs ih =>
    exact ⟨fun hboth => List.ne_of_not_mem_cons h hboth.2.symm, ih (List.not_mem_of_not_mem_cons h)⟩

theorem tidy_of_notMem {cs : List Char} (h : '\\' ∉ cs) : Tidy cs :=
  fun _ => escapesInside_of_notMem h

/-- Without a quote a reader does not leave a literal. -/
theorem escapesInside_of_no_quote {m : Mode} {cs : List Char} (hm : m.isCode = false)
    (h : '"' ∉ cs) : EscapesInside m cs := by
  induction cs generalizing m with
  | nil => trivial
  | cons c cs ih =>
    have hc := List.ne_of_not_mem_cons h
    refine ⟨fun hboth => ?_, ih ?_ (List.not_mem_of_not_mem_cons h)⟩
    · rw [hm] at hboth
      exact Bool.false_ne_true hboth.1
    · cases m with
      | code n => cases hm
      | literal n =>
        rw [Mode.next, if_neg (Ne.symm hc)]
        split <;> rfl
      | escape n => rfl

/-- A text inside of a literal that does not end it. -/
theorem escapesInside_flatMap {α : Type*} {l : List α} {f : α → List Char}
    (h : ∀ a ∈ l, InLiteral (f a)) (hf : ∀ a ∈ l, ∀ n, EscapesInside (.literal n) (f a)) (n : Nat) :
    EscapesInside (.literal n) (l.flatMap f) := by
  induction l with
  | nil => trivial
  | cons a l ih =>
    obtain ⟨ha, hl⟩ := List.forall_mem_cons.mp h
    obtain ⟨hfa, hfl⟩ := List.forall_mem_cons.mp hf
    rw [List.flatMap_cons, escapesInside_append, (ha n).1]
    exact ⟨hfa n, ih hl hfl⟩

theorem tidy_quoted {cs : List Char} (hliteral : InLiteral cs)
    (h : ∀ n, EscapesInside (.literal n) cs) : Tidy ('"' :: cs ++ ['"']) := by
  intro n
  rw [List.cons_append]
  refine ⟨by simp, ?_⟩
  rw [show Mode.next (.code n) '"' = .literal n from rfl, escapesInside_append, (hliteral n).1]
  exact ⟨h n, by simp, trivial⟩

/-! ### Joining -/

theorem after_commaJoin_code {texts : List (List Char)} (h : ∀ t ∈ texts, Balanced t) (n : Nat) :
    Mode.after (.code n) (commaJoin texts) = .code n := by
  induction texts with
  | nil => rfl
  | cons t texts ih =>
    obtain ⟨ht, htexts⟩ := List.forall_mem_cons.mp h
    cases texts with
    | nil => simpa [commaJoin] using ht.after n
    | cons u texts =>
      rw [commaJoin_cons_cons, after_append, ht.after, after_cons]
      exact ih htexts

theorem tidy_commaJoin {texts : List (List Char)} (h : ∀ t ∈ texts, Balanced t)
    (htidy : ∀ t ∈ texts, Tidy t) : Tidy (commaJoin texts) := by
  induction texts with
  | nil => exact .nil
  | cons t texts ih =>
    obtain ⟨ht, htexts⟩ := List.forall_mem_cons.mp h
    obtain ⟨ht', htexts'⟩ := List.forall_mem_cons.mp htidy
    cases texts with
    | nil => simpa [commaJoin] using ht'
    | cons u texts =>
      rw [commaJoin_cons_cons]
      exact ht'.append ht fun n => ⟨by simp, ih htexts htexts' n⟩

/-- Tidy texts joined by commas between an opening and a closing bracket. -/
theorem tidy_enclosed {o c : Char} (ho : o = '[' ∨ o = '{') (hc : c = ']' ∨ c = '}')
    {texts : List (List Char)} (h : ∀ t ∈ texts, Balanced t) (htidy : ∀ t ∈ texts, Tidy t) :
    Tidy (o :: commaJoin texts ++ [c]) := by
  intro n
  have hopen : Mode.next (.code n) o = .code (n + 1) := by
    rcases ho with rfl | rfl <;> simp [Mode.next]
  have hslash : '\\' ∉ [c] := by
    rcases hc with rfl | rfl <;> decide
  rw [List.cons_append]
  refine ⟨by rcases ho with rfl | rfl <;> simp, ?_⟩
  rw [hopen, escapesInside_append]
  exact ⟨tidy_commaJoin h htidy (n + 1), escapesInside_of_notMem hslash⟩

/-- A text between brackets, balanced and without escapes outside of its literals. -/
structure Enclosed (cs : List Char) : Prop where
  exists_texts : ∃ texts : List (List Char), (∀ t ∈ texts, Balanced t) ∧
    cs = '{' :: commaJoin texts ++ ['}']
  tidy : Tidy cs

theorem enclosed_of_texts {texts : List (List Char)} (h : ∀ t ∈ texts, Balanced t)
    (htidy : ∀ t ∈ texts, Tidy t) : Enclosed ('{' :: commaJoin texts ++ ['}']) :=
  ⟨⟨texts, h, rfl⟩, tidy_enclosed (.inr rfl) (.inr rfl) h htidy⟩

theorem Enclosed.balanced {cs : List Char} (h : Enclosed cs) : Balanced cs := by
  obtain ⟨texts, htexts, rfl⟩ := h.exists_texts
  exact balanced_enclosed (.inr rfl) (.inr rfl) htexts

/-! ### The level -/

/-- One level up. -/
def Mode.raise : Mode → Mode
  | code n => code (n + 1)
  | literal n => literal (n + 1)
  | escape n => escape (n + 1)

theorem next_raise (m : Mode) (c : Char) :
    m.raise.next c = (m.next c).raise ∨ m.raise.next c = m.next c := by
  cases m with
  | code n =>
    simp only [Mode.raise, Mode.next]
    split
    · exact .inl rfl
    split
    · exact .inl rfl
    split
    · cases n with
      | zero => exact .inr rfl
      | succ n => exact .inl rfl
    · exact .inl rfl
  | literal n =>
    refine .inl ?_
    simp only [Mode.raise, Mode.next]
    split
    · rfl
    split <;> rfl
  | escape n => exact .inl rfl

/-- Two readers one level apart stay so, unless the lower one has met the lowest level. -/
theorem after_raise (m : Mode) (cs : List Char) :
    m.raise.after cs = (m.after cs).raise ∨ m.raise.after cs = m.after cs := by
  induction cs generalizing m with
  | nil => exact .inl rfl
  | cons c cs ih =>
    rw [after_cons, after_cons]
    rcases next_raise m c with h | h
    · rw [h]
      exact ih _
    · rw [h]
      exact .inr rfl

theorem raise_ne_zero (m : Mode) : m.raise ≠ .code 0 := by
  cases m with
  | code n => exact fun h => Nat.succ_ne_zero n (Mode.code.inj h)
  | literal n | escape n => exact nofun

/-- Within a text that comes back to its level a reader stays above the level below. -/
theorem after_front_ne_zero {cs front back : List Char}
    (h : ∀ n, Mode.after (.code n) cs = .code n) (hcs : cs = front ++ back) :
    Mode.after (.code 1) front ≠ .code 0 := by
  have hone : Mode.raise (.code 0) = .code 1 := rfl
  rcases after_raise (.code 0) front with hfront | hfront
  · rw [← hone, hfront]
    exact raise_ne_zero _
  · -- from here on both readers would be at the same level
    have hzero := h 0
    have hlast := h 1
    rw [hcs, after_append] at hzero hlast
    rw [hone] at hfront
    rw [hfront, hzero] at hlast
    cases hlast

/-- Only the last bracket of an enclosed text leads back to the level it stands on. -/
theorem Enclosed.after_front {cs front back : List Char} (h : Enclosed cs)
    (hcs : cs = front ++ back) (hfront : front ≠ []) (hback : back ≠ []) :
    Mode.after (.code 0) front ≠ .code 0 := by
  obtain ⟨texts, htexts, rfl⟩ := h.exists_texts
  obtain ⟨c, front, rfl⟩ := List.exists_cons_of_ne_nil hfront
  rw [List.cons_append, List.cons_append, List.cons.injEq] at hcs
  obtain ⟨rfl, hcs⟩ := hcs
  have hinner : ∃ rest, commaJoin texts = front ++ rest := by
    rcases List.eq_nil_or_concat back with rfl | ⟨rest, d, rfl⟩
    · exact absurd rfl hback
    · rw [List.concat_eq_append, ← List.append_assoc] at hcs
      exact ⟨rest, (List.append_inj' hcs rfl).1⟩
  obtain ⟨rest, hrest⟩ := hinner
  exact after_front_ne_zero (after_commaJoin_code htexts) hrest

/-! ### Two readings -/

/-- Readers on different sides of a quote are so after each character. -/
theorem opposite_after {cs : List Char} {k n : Nat} (hliteral : EscapesInside (.literal k) cs)
    (hcode : EscapesInside (.code n) cs) :
    (∃ a b, Mode.after (.literal k) cs = .literal a ∧ Mode.after (.code n) cs = .code b) ∨
      ∃ a b, Mode.after (.literal k) cs = .code a ∧ Mode.after (.code n) cs = .literal b := by
  induction cs generalizing k n with
  | nil => exact .inl ⟨k, n, rfl, rfl⟩
  | cons c cs ih =>
    have hc : c ≠ '\\' := fun h => hcode.1 ⟨rfl, h⟩
    rw [after_cons, after_cons]
    by_cases hquote : c = '"'
    · subst hquote
      have h := ih (k := n) (n := k) hcode.2 hliteral.2
      rcases h with ⟨a, b, ha, hb⟩ | ⟨a, b, ha, hb⟩
      · exact .inr ⟨b, a, hb, ha⟩
      · exact .inl ⟨b, a, hb, ha⟩
    · have hstay : Mode.next (.literal k) c = .literal k := by simp [Mode.next, hquote, hc]
      have hout : ∃ m, Mode.next (.code n) c = .code m := by
        simp only [Mode.next, if_neg hquote]
        split
        · exact ⟨_, rfl⟩
        split <;> exact ⟨_, rfl⟩
      obtain ⟨m, hm⟩ := hout
      have hliteral' := hliteral.2
      have hcode' := hcode.2
      rw [hstay] at hliteral' ⊢
      rw [hm] at hcode' ⊢
      exact ih hliteral' hcode'

theorem not_both_end {cs : List Char} {k n a b : Nat} (hliteral : EscapesInside (.literal k) cs)
    (hcode : EscapesInside (.code n) cs) (ha : Mode.after (.literal k) cs = .code a)
    (hb : Mode.after (.code n) cs = .code b) : False := by
  rcases opposite_after hliteral hcode with ⟨_, _, h, -⟩ | ⟨_, _, -, h⟩
  · rw [ha] at h
    cases h
  · rw [hb] at h
    cases h

/-- No enclosed text is a proper part at the end of another. -/
theorem Enclosed.front_eq_nil {cs ds front : List Char} (hcs : Enclosed cs) (hds : Enclosed ds)
    (h : cs = front ++ ds) : front = [] := by
  refine Classical.byContradiction fun hfront => ?_
  have hne : ds ≠ [] := by
    obtain ⟨texts, -, rfl⟩ := hds.exists_texts
    exact List.cons_ne_nil _ _
  have hlevel := hcs.after_front h hfront hne
  have hend := hcs.balanced.after 0
  have htidy := hcs.tidy 0
  rw [h, after_append] at hend
  rw [h, escapesInside_append] at htidy
  cases hmode : Mode.after (.code 0) front with
  | code k =>
    rw [hmode, hds.balanced.after] at hend
    exact hlevel (hmode.trans hend)
  | literal k =>
    rw [hmode] at hend htidy
    exact not_both_end htidy.2 (hds.tidy 0) hend (hds.balanced.after 0)
  | escape k =>
    -- the opening bracket is the character that is escaped
    rw [hmode] at hend htidy
    have hdtidy := hds.tidy 0
    have hdend := hds.balanced.after 0
    obtain ⟨texts, -, rfl⟩ := hds.exists_texts
    exact not_both_end htidy.2.2 hdtidy.2 hend hdend

/-- Texts that end in an enclosed text each end in the same one. -/
theorem enclosed_eq_of_append {s t cs ds : List Char} (hcs : Enclosed cs) (hds : Enclosed ds)
    (h : s ++ cs = t ++ ds) : s = t ∧ cs = ds := by
  rcases List.append_eq_append_iff.mp h with ⟨front, rfl, hfront⟩ | ⟨front, rfl, hfront⟩
  · obtain rfl := hcs.front_eq_nil hds hfront
    exact ⟨(List.append_nil s).symm, hfront⟩
  · obtain rfl := hds.front_eq_nil hcs hfront
    exact ⟨List.append_nil t, hfront.symm⟩

end KirkForge.Delimited
