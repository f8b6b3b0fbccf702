import Mathlib.Data.Finset.Card
import Mathlib.Data.Finset.Range
import Mathlib.Data.List.DropRight
import Mathlib.Data.List.Forall2
import Mathlib.Data.List.Perm.Basic

/-!
# Parts of lists

An entry with what is in front of it and behind it, and another in its place; what a separator
divides, lists that a property divides in two, lists whose entries are related one by one, what two
filters keep of the same lists, and the last entries of a list.
-/

namespace KirkForge.Lists

variable {α : Type*}

theorem exists_split {l : List α} {i : Nat} {a : α} (h : l[i]? = some a) :
    ∃ front back, l = front ++ a :: back ∧ front.length = i := by
  obtain ⟨hi, ha⟩ := List.getElem?_eq_some_iff.mp h
  refine ⟨l.take i, l.drop (i + 1), ?_, List.length_take_of_le (Nat.le_of_lt hi)⟩
  rw [← ha, ← List.drop_eq_getElem_cons hi, List.take_append_drop]

theorem forall_mem_replace {p : α → Prop} {front back : List α} {a b : α}
    (h : ∀ x ∈ front ++ a :: back, p x) (hb : p b) : ∀ x ∈ front ++ b :: back, p x := by
  obtain ⟨hfront, hback⟩ := List.forall_mem_append.mp h
  exact List.forall_mem_append.mpr
    ⟨hfront, List.forall_mem_cons.mpr ⟨hb, (List.forall_mem_cons.mp hback).2⟩⟩

theorem pairwise_replace {R : α → α → Prop} {front back : List α} {a b : α}
    (h : (front ++ a :: back).Pairwise R) (hfront : ∀ x ∈ front, R x b)
    (hback : ∀ x ∈ back, R b x) : (front ++ b :: back).Pairwise R := by
  obtain ⟨hfronts, hbacks, hacross⟩ := List.pairwise_append.mp h
  refine List.pairwise_append.mpr
    ⟨hfronts, List.pairwise_cons.mpr ⟨hback, (List.pairwise_cons.mp hbacks).2⟩, fun x hx => ?_⟩
  exact List.forall_mem_cons.mpr
    ⟨hfront x hx, fun y hy => hacross x hx y (List.mem_cons_of_mem _ hy)⟩

/-- Entries up to one of another kind are all or are in front of it. -/
theorem takeWhile_cases (p : α → Bool) (l : List α) :
    l.takeWhile p = l ∨ ∃ c rest, p c = false ∧ l = l.takeWhile p ++ c :: rest := by
  have hsplit := List.takeWhile_append_dropWhile (p := p) (l := l)
  have hhead := List.head?_dropWhile_not p l
  cases hdrop : l.dropWhile p with
  | nil =>
    rw [hdrop, List.append_nil] at hsplit
    exact .inl hsplit
  | cons c rest =>
    rw [hdrop] at hsplit hhead
    exact .inr ⟨c, rest, by simpa using hhead, hsplit.symm⟩

/-- An entry of two lists one after the other is in the first or in the second. -/
theorem append_eq_append_cons {s t l m : List α} {a : α} (h : s ++ t = l ++ a :: m) :
    (∃ m', s = l ++ a :: m' ∧ m = m' ++ t) ∨ ∃ l', l = s ++ l' ∧ t = l' ++ a :: m := by
  obtain ⟨b, hl, ht⟩ | ⟨b, hs, ht⟩ := List.append_eq_append_iff.mp h
  · exact .inr ⟨b, hl, ht⟩
  · cases b with
    | nil => exact .inr ⟨[], by simpa using hs.symm, by simpa using ht.symm⟩
    | cons c b =>
      obtain ⟨rfl, rfl⟩ := List.cons.inj ht
      exact .inl ⟨b, hs, rfl⟩

/-- The first occurrence of a separator determines what stands before and after it. -/
theorem append_cons_inj {a : α} {s t l m : List α} (hs : a ∉ s) (ht : a ∉ t) :
    s ++ a :: l = t ++ a :: m ↔ s = t ∧ l = m := by
  induction s generalizing t with
  | nil =>
    cases t with
    | nil => simp
    | cons x t => simp [List.ne_of_not_mem_cons ht]
  | cons x s ih =>
    cases t with
    | nil => simp [(List.ne_of_not_mem_cons hs).symm]
    | cons y t =>
      rw [List.cons_append, List.cons_append, List.cons.injEq, List.cons.injEq,
        ih (List.not_mem_of_not_mem_cons hs) (List.not_mem_of_not_mem_cons ht), and_assoc]

/-- The last occurrence of a separator does, too. -/
theorem append_cons_inj_right {a : α} {s t l m : List α} (hl : a ∉ l) (hm : a ∉ m) :
    s ++ a :: l = t ++ a :: m ↔ s = t ∧ l = m := by
  rw [← List.reverse_inj]
  simp only [List.reverse_append, List.reverse_cons, List.append_assoc, List.singleton_append]
  rw [append_cons_inj (by simpa using hl) (by simpa using hm), List.reverse_inj, List.reverse_inj,
    and_comm]

/-- So does any occurrence with the same number of others behind it. -/
theorem append_cons_inj_of_count [DecidableEq α] {a : α} {s t l m : List α}
    (hcount : l.count a = m.count a) : s ++ a :: l = t ++ a :: m ↔ s = t ∧ l = m := by
  have hbehind {s t l m : List α} {x : List α} (hx : t = s ++ x) (h : a :: l = x ++ a :: m)
      (hcount : l.count a = m.count a) : s = t ∧ l = m := by
    cases x with
    | nil => exact ⟨by rw [hx, List.append_nil], (List.cons.inj h).2⟩
    | cons b x =>
      have hl : l = x ++ a :: m := (List.cons.inj h).2
      rw [hl, List.count_append, List.count_cons_self] at hcount
      omega
  constructor
  · intro h
    rcases List.append_eq_append_iff.mp h with ⟨x, ht, hl⟩ | ⟨x, hs, hm⟩
    · exact hbehind ht hl hcount
    · obtain ⟨hst, hlm⟩ := hbehind hs hm hcount.symm
      exact ⟨hst.symm, hlm.symm⟩
  · rintro ⟨rfl, rfl⟩
    rfl

/-- A function that is injective on the entries of a list is so on the list. -/
theorem map_inj_of_mem {β : Type*} {f : α → β} {l m : List α}
    (h : ∀ a ∈ l, ∀ b ∈ m, f a = f b → a = b) (heq : l.map f = m.map f) : l = m := by
  induction l generalizing m with
  | nil => exact (List.map_eq_nil_iff.mp heq.symm).symm
  | cons a l ih =>
    cases m with
    | nil => exact nomatch heq
    | cons b m =>
      obtain ⟨hab, hlm⟩ := List.cons.inj heq
      obtain rfl := h a List.mem_cons_self b List.mem_cons_self hab
      have htail : l = m := by
        apply ih _ hlm
        intro x hx y hy
        exact h x (List.mem_cons_of_mem _ hx) y (List.mem_cons_of_mem _ hy)
      rw [htail]

/-- The entries with a property that no entry has after one without it come first. -/
theorem exists_eq_filter_append {p : α → Bool} {l : List α}
    (h : l.Pairwise fun a b => p b = true → p a = true) : ∃ back, l = l.filter p ++ back := by
  induction h with
  | nil => exact ⟨[], rfl⟩
  | @cons a l hl _ ih =>
    cases ha : p a with
    | true =>
      obtain ⟨back, hback⟩ := ih
      exact ⟨back, by rw [List.filter_cons_of_pos ha, List.cons_append, ← hback]⟩
    | false =>
      have hnone : l.filter p = [] := List.filter_eq_nil_iff.mpr fun b hb hp => by
        rw [hl b hb hp] at ha
        cases ha
      exact ⟨a :: l, by simp [ha, hnone]⟩

/-- They are an initial part of the list just if there is none after an entry without it. -/
theorem filter_isPrefix_iff {p : α → Bool} {l : List α} :
    l.filter p <+: l ↔ l.Pairwise fun a b => p b = true → p a = true := by
  constructor
  · rintro ⟨back, hback⟩
    have hnone : ∀ b ∈ back, ¬p b = true := by
      have hfilter := congrArg (List.filter p) hback
      simp only [List.filter_append, List.filter_filter, Bool.and_self, List.append_right_eq_self]
        at hfilter
      exact List.filter_eq_nil_iff.mp hfilter
    rw [← hback]
    refine List.pairwise_append.mpr ⟨?_, ?_, fun a _ b hb hp => absurd hp (hnone b hb)⟩
    · exact List.pairwise_of_forall_mem_list fun a ha b _ _ => List.of_mem_filter ha
    · exact List.pairwise_of_forall_mem_list fun a _ b hb hp => absurd hp (hnone b hb)
  · intro h
    obtain ⟨back, hback⟩ := exists_eq_filter_append h
    exact ⟨back, hback.symm⟩

theorem forall_mem_of_forall₂ {β : Type*} {R : α → β → Prop} {p : β → Prop} {l : List α}
    {m : List β} (h : l.Forall₂ R m) (hp : ∀ a b, R a b → p b) : ∀ b ∈ m, p b := by
  induction h with
  | nil => exact List.forall_mem_nil _
  | cons hab _ ih => exact List.forall_mem_cons.mpr ⟨hp _ _ hab, ih⟩

theorem infix_intercalate {sep : List α} {pieces : List (List α)} {piece : List α}
    (h : piece ∈ pieces) : piece <:+: sep.intercalate pieces := by
  induction pieces with
  | nil => cases h
  | cons first rest ih =>
    cases rest with
    | nil =>
      obtain rfl := List.mem_singleton.mp h
      exact ⟨[], [], by simp [List.intercalate_singleton]⟩
    | cons second rest =>
      rw [List.intercalate_cons_cons]
      rcases List.mem_cons.mp h with rfl | h
      · exact ((List.prefix_append _ _).trans (List.prefix_append _ _)).isInfix
      · exact (ih h).trans (List.suffix_append _ _).isInfix

/-- The first few that pass leave some entry out just if one does not pass or more of them do. -/
theorem exists_notMem_take_filter {l : List α} (hl : l.Nodup) (p : α → Bool) (n : Nat) :
    (∃ a ∈ l, a ∉ (l.filter p).take n) ↔ (∃ a ∈ l, ¬p a) ∨ n < (l.filter p).length := by
  constructor
  · rintro ⟨a, ha, hnot⟩
    by_cases hp : p a
    · refine Or.inr (Nat.lt_of_not_le fun hle => hnot ?_)
      rw [List.take_of_length_le hle]
      exact List.mem_filter.mpr ⟨ha, hp⟩
    · exact Or.inl ⟨a, ha, hp⟩
  · rintro (⟨a, ha, hp⟩ | hlen)
    · exact ⟨a, ha, fun hmem => hp (List.mem_filter.mp (List.mem_of_mem_take hmem)).2⟩
    · have hget := List.getElem_mem hlen
      refine ⟨_, (List.mem_filter.mp hget).1, fun hmem => ?_⟩
      obtain ⟨i, hi, heq⟩ := List.mem_take_iff_getElem.mp hmem
      have := (List.getElem_inj (hl.filter p)).mp heq
      omega

/-- What stands between separators is a part of the list. -/
theorem infix_of_mem_splitOn [DecidableEq α] {a : α} {l piece : List α}
    (h : piece ∈ l.splitOn a) : piece <:+: l := by
  have hinfix : piece <:+: [a].intercalate (l.splitOn a) := infix_intercalate h
  rwa [List.intercalate_splitOn] at hinfix

/-! ### What two filters keep -/

/-- Filters of which the second keeps less of a list: what they keep of it with something else each
is the same only if they keep the same and the rest is the same, too. -/
theorem perm_filter_append_iff {p q : α → Bool} {l m n : List α}
    (h : ∀ x ∈ l, q x = true → p x = true) (hn : ∀ x ∈ n, q x = true) :
    (l.filter p ++ m).Perm (l.filter q ++ n) ↔
      (∀ x ∈ l, p x = true → q x = true) ∧ m.Perm n := by
  have hsame (hl : ∀ x ∈ l, p x = true → q x = true) : l.filter p = l.filter q :=
    List.filter_congr fun x hx => Bool.eq_iff_iff.mpr ⟨hl x hx, h x hx⟩
  constructor
  · intro hperm
    have hl (x) (hx : x ∈ l) (hp : p x = true) : q x = true := by
      have hmem := hperm.subset (List.mem_append_left m (List.mem_filter.mpr ⟨hx, hp⟩))
      obtain hmem | hmem := List.mem_append.mp hmem
      · exact List.of_mem_filter hmem
      · exact hn x hmem
    rw [hsame hl] at hperm
    exact ⟨hl, (List.perm_append_left_iff _).mp hperm⟩
  · rintro ⟨hl, hperm⟩
    rw [hsame hl]
    exact hperm.append_left _

/-! ### The last elements -/

theorem rtake_of_length_le {l : List α} {n : Nat} (h : l.length ≤ n) : l.rtake n = l := by
  rw [List.rtake, Nat.sub_eq_zero_of_le h, List.drop_zero]

theorem length_rtake_le (l : List α) (n : Nat) : (l.rtake n).length ≤ n := by
  rw [List.rtake, List.length_drop]
  omega

/-- What has been cut off does not come back. -/
theorem rtake_append (l l' : List α) (n : Nat) :
    (l.rtake n ++ l').rtake n = (l ++ l').rtake n := by
  simp only [List.rtake_eq_reverse_take_reverse, List.reverse_append, List.reverse_reverse,
    List.take_append, List.take_take]
  rw [Nat.min_eq_left (Nat.sub_le ..)]

end KirkForge.Lists

/-!
## Counting entries by their places

How many entries of a list have a property, when entries are appended or replaced, and the set of
the places where they stand.
-/

namespace KirkForge.Census

variable {α : Type*} {p : α → Prop} [DecidablePred p] {l : List α} {i : Nat} {a b : α}

/-- An entry is replaced: what it counted for is replaced by what the new one counts for. -/
theorem countP_set (h : l[i]? = some a) :
    (l.set i b).countP (p ·) + (if p a then 1 else 0) = l.countP (p ·) + if p b then 1 else 0 := by
  induction l generalizing i with
  | nil => exact nomatch h
  | cons x l ih =>
    cases i with
    | zero =>
      cases h
      rw [List.set_cons_zero, List.countP_cons, List.countP_cons]
      simp only [decide_eq_true_eq]
      omega
    | succ i =>
      have hrest := ih h
      rw [List.set_cons_succ, List.countP_cons, List.countP_cons]
      omega

open scoped Classical in
/-- The places of the entries with the property. -/
noncomputable def places (p : α → Prop) (l : List α) : Finset Nat :=
  (Finset.range l.length).filter fun i => ∃ a, l[i]? = some a ∧ p a

omit [DecidablePred p] in
theorem mem_places : i ∈ places p l ↔ ∃ a, l[i]? = some a ∧ p a := by
  classical
  rw [places, Finset.mem_filter, Finset.mem_range, and_iff_right_iff_imp]
  rintro ⟨a, ha, -⟩
  exact (List.getElem?_eq_some_iff.mp ha).1

omit [DecidablePred p] in
theorem mem_places_concat :
    i ∈ places p (l ++ [a]) ↔ i ∈ places p l ∨ i = l.length ∧ p a := by
  rw [mem_places, mem_places]
  by_cases hi : i < l.length
  · rw [List.getElem?_append_left hi, or_iff_left fun h => hi.ne h.1]
  · have hnone : l[i]? = none := List.getElem?_eq_none (Nat.not_lt.mp hi)
    rw [List.getElem?_append_right (Nat.not_lt.mp hi), hnone]
    constructor
    · rintro ⟨b, hb, hp⟩
      obtain ⟨hlt, hget⟩ := List.getElem?_eq_some_iff.mp hb
      rw [List.length_singleton] at hlt
      have hzero : i - l.length = 0 := by omega
      simp only [hzero, List.getElem_cons_zero] at hget
      exact .inr ⟨by omega, hget ▸ hp⟩
    · rintro (⟨_, h, _⟩ | ⟨rfl, hp⟩)
      · exact nomatch h
      · exact ⟨a, by simp, hp⟩

omit [DecidablePred p] in
theorem mem_places_set (h : l[i]? = some a) {j : Nat} :
    j ∈ places p (l.set i b) ↔ if j = i then p b else j ∈ places p l := by
  rw [mem_places, mem_places]
  split
  · next hj =>
    subst hj
    rw [List.getElem?_set_self (List.getElem?_eq_some_iff.mp h).1]
    simp
  · next hj => rw [List.getElem?_set_ne (Ne.symm hj)]

theorem card_places (l : List α) : (places p l).card = l.countP (p ·) := by
  induction l using List.reverseRecOn with
  | nil => rfl
  | append_singleton l a ih =>
    rw [List.countP_append, ← ih, List.countP_singleton]
    by_cases ha : p a
    · have hnew : l.length ∉ places p l := by
        rw [mem_places]
        rintro ⟨b, hb, -⟩
        exact absurd (List.getElem?_eq_some_iff.mp hb).1 (Nat.lt_irrefl _)
      have hplaces : places p (l ++ [a]) = insert l.length (places p l) := by
        ext i
        rw [mem_places_concat, Finset.mem_insert, and_iff_left ha, or_comm]
      rw [hplaces, Finset.card_insert_of_notMem hnew, if_pos (decide_eq_true ha)]
    · have hplaces : places p (l ++ [a]) = places p l := by
        ext i
        rw [mem_places_concat, or_iff_left fun h => ha h.2]
      rw [hplaces, if_neg (by simpa using ha), Nat.add_zero]

end KirkForge.Census
