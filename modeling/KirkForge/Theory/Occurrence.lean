import KirkForge.Theory.Text
import Mathlib.Data.List.Infix

/-!
# Occurrences

The first and the last occurrence of a list in another one, as `indexOf` and `lastIndexOf` find
them, and the occurrences in a list that is put together at an entry which does not occur in the
list that is looked for.
-/

namespace KirkForge.Text

/-- A property of all characters of a list, decided on the list: for Mathlib they are a finite type,
of which `decide` would try every one. -/
theorem forall_mem_of_all {p : Char → Prop} [DecidablePred p] {cs : List Char}
    (h : (cs.all fun c => decide (p c)) = true) : ∀ c ∈ cs, p c :=
  fun c hc => of_decide_eq_true (List.all_eq_true.mp h c hc)

variable {α : Type*} [DecidableEq α]

/-- `list.indexOf(pattern)` -/
def indexOf (pattern : List α) : List α → Option Nat
  | [] => if pattern = [] then some 0 else none
  | a :: l => if pattern <+: a :: l then some 0 else (indexOf pattern l).map (· + 1)

/-- `list.lastIndexOf(pattern)` -/
def lastIndexOf (pattern : List α) : List α → Option Nat
  | [] => if pattern = [] then some 0 else none
  | a :: l =>
    match lastIndexOf pattern l with
    | some i => some (i + 1)
    | none => if pattern <+: a :: l then some 0 else none

variable {pattern l front back : List α} {i : Nat}

theorem indexOf_eq_none_iff : indexOf pattern l = none ↔ ¬pattern <:+: l := by
  induction l with
  | nil => simp [indexOf]
  | cons a l ih =>
    rw [indexOf, List.infix_cons_iff, not_or, ← ih]
    split
    · next h => simp [h]
    · next h => simp [h]

theorem lastIndexOf_eq_none_iff : lastIndexOf pattern l = none ↔ ¬pattern <:+: l := by
  induction l with
  | nil => simp [lastIndexOf]
  | cons a l ih =>
    rw [lastIndexOf, List.infix_cons_iff, not_or, ← ih]
    split
    · next h => simp [h]
    · next h => simp [h]

/-- What is found begins at the place that is returned. -/
theorem prefix_drop_of_indexOf (h : indexOf pattern l = some i) : pattern <+: l.drop i := by
  induction l generalizing i with
  | nil =>
    rw [indexOf] at h
    split at h
    · next hnil => exact hnil ▸ List.nil_prefix
    · cases h
  | cons a l ih =>
    rw [indexOf] at h
    split at h
    · next hfirst =>
      cases h
      exact hfirst
    · obtain ⟨j, hj, rfl⟩ := Option.map_eq_some_iff.mp h
      exact ih hj

theorem indexOf_le {j : Nat} (h : indexOf pattern l = some i) (hj : pattern <+: l.drop j)
    (hlen : j < l.length) : i ≤ j := by
  induction l generalizing i j with
  | nil => exact nomatch hlen
  | cons a l ih =>
    rw [indexOf] at h
    split at h
    · cases h
      exact Nat.zero_le j
    · next hhead =>
      obtain ⟨k, hk, rfl⟩ := Option.map_eq_some_iff.mp h
      cases j with
      | zero => exact absurd hj hhead
      | succ j => exact Nat.succ_le_succ (ih hk hj (Nat.lt_of_succ_lt_succ hlen))

/-- What is found in a list is found in front of anything that is appended to it. -/
theorem indexOf_append_right (h : indexOf pattern l = some i) :
    indexOf pattern (l ++ back) = some i := by
  induction l generalizing i with
  | nil =>
    rw [indexOf] at h
    split at h
    · next hnil =>
      cases h
      subst hnil
      cases back with
      | nil => rfl
      | cons b back => exact if_pos List.nil_prefix
    · cases h
  | cons a l ih =>
    rw [indexOf] at h
    rw [List.cons_append, indexOf]
    split at h
    · next hfirst =>
      cases h
      exact if_pos (hfirst.trans (List.prefix_append (a :: l) back))
    · next hfirst =>
      obtain ⟨j, hj, rfl⟩ := Option.map_eq_some_iff.mp h
      have hlen : pattern.length ≤ (a :: l).length := by
        have := (prefix_drop_of_indexOf hj).length_le
        rw [List.length_drop] at this
        rw [List.length_cons]
        omega
      have hlater : ¬pattern <+: a :: (l ++ back) := fun hstart =>
        hfirst (List.prefix_of_prefix_length_le hstart (List.prefix_append (a :: l) back) hlen)
      rw [if_neg hlater, ih hj, Option.map_some]

/-- Where no occurrence begins in the front, the first one is looked for behind it. -/
theorem indexOf_append (hfront : ∀ i < front.length, ¬pattern <+: front.drop i ++ back) :
    indexOf pattern (front ++ back) = (indexOf pattern back).map (front.length + ·) := by
  induction front with
  | nil => simp
  | cons a front ih =>
    have hhead : ¬pattern <+: a :: (front ++ back) := hfront 0 (Nat.succ_pos _)
    have htail : ∀ i < front.length, ¬pattern <+: front.drop i ++ back :=
      fun i hi => hfront (i + 1) (Nat.succ_lt_succ hi)
    rw [List.cons_append, indexOf, if_neg hhead, ih htail, Option.map_map, List.length_cons]
    refine congrArg (Option.map · _) (funext fun n => ?_)
    exact Nat.add_right_comm front.length n 1

/-- The pattern does not occur in front of its first occurrence. -/
theorem not_infix_take_of_indexOf (hne : pattern ≠ []) (h : indexOf pattern l = some i) :
    ¬pattern <:+: l.take i := by
  intro hpart
  obtain ⟨j, hj⟩ := Option.ne_none_iff_exists'.mp (mt indexOf_eq_none_iff.mp (not_not.mpr hpart))
  have hindex : indexOf pattern (l.take i ++ l.drop i) = some j := indexOf_append_right hj
  rw [List.take_append_drop, h] at hindex
  obtain rfl := Option.some.inj hindex
  have hfirst := prefix_drop_of_indexOf hj
  rw [List.drop_eq_nil_of_le (List.length_take_le i l)] at hfirst
  exact hne (List.prefix_nil.mp hfirst)

/-- No occurrence begins behind the last one. -/
theorem lastIndexOf_append (hfront : pattern <+: back) (hback : ¬pattern <:+: back.tail) :
    lastIndexOf pattern (front ++ back) = some front.length := by
  induction front with
  | nil =>
    cases back with
    | nil => rw [List.nil_append, lastIndexOf, if_pos (List.prefix_nil.mp hfront)]; rfl
    | cons b back =>
      have hnone : lastIndexOf pattern back = none := lastIndexOf_eq_none_iff.mpr hback
      rw [List.nil_append, lastIndexOf, hnone]
      exact if_pos hfront
  | cons a front ih => rw [List.cons_append, lastIndexOf, ih, List.length_cons]

omit [DecidableEq α]

/-- A beginning does not reach over an entry that the pattern does not have. -/
theorem prefix_append_cons {a : α} (ha : a ∉ pattern) :
    pattern <+: front ++ a :: back ↔ pattern <+: front := by
  refine ⟨fun h => ?_, fun h => h.trans (List.prefix_append _ _)⟩
  rcases List.prefix_or_prefix_of_prefix h (List.prefix_append front (a :: back)) with h' | h'
  · exact h'
  · obtain ⟨rest, rfl⟩ := h'
    rw [List.prefix_append_right_inj] at h
    cases rest with
    | nil => rw [List.append_nil]
    | cons b rest =>
      obtain rfl := (List.cons_prefix_cons.mp h).1
      exact absurd (List.mem_append_right _ List.mem_cons_self) ha

/-- An occurrence does not reach over such an entry. -/
theorem infix_append_cons {a : α} (ha : a ∉ pattern) :
    pattern <:+: front ++ a :: back ↔ pattern <:+: front ∨ pattern <:+: back := by
  induction front with
  | nil =>
    have hcut : pattern <+: [] ++ a :: back ↔ pattern <+: [] := prefix_append_cons ha
    rw [List.nil_append] at hcut
    rw [List.nil_append, List.infix_cons_iff, List.infix_nil, hcut, List.prefix_nil]
  | cons c front ih =>
    have hcut : pattern <+: (c :: front) ++ a :: back ↔ pattern <+: c :: front :=
      prefix_append_cons ha
    rw [List.cons_append] at hcut
    rw [List.cons_append, List.infix_cons_iff, List.infix_cons_iff, ih, hcut, or_assoc]

/-- An occurrence stands behind an entry that the pattern does not have. -/
theorem infix_cons_of_notMem {a : α} (hne : pattern ≠ []) (ha : a ∉ pattern) :
    pattern <:+: a :: l ↔ pattern <:+: l := by
  have hcut : pattern <:+: [] ++ a :: l ↔ pattern <:+: [] ∨ pattern <:+: l := infix_append_cons ha
  rwa [List.nil_append, List.infix_nil, or_iff_right hne] at hcut

/-- Or in front of it. -/
theorem infix_concat_of_notMem {a : α} (hne : pattern ≠ []) (ha : a ∉ pattern) :
    pattern <:+: l ++ [a] ↔ pattern <:+: l := by
  rw [infix_append_cons ha, List.infix_nil, or_iff_left hne]

/-- A pattern of two entries does not begin in a front where it does not occur, if its second entry
does not stand behind the front. -/
theorem not_pair_prefix {a b c : α} (hc : c ≠ b) (h : ¬[a, b] <:+: front) :
    ∀ i < front.length, ¬[a, b] <+: front.drop i ++ c :: back := by
  intro i hi hfirst
  have hdrop : front.drop i ≠ [] := by simpa using hi
  obtain ⟨x, rest, hx⟩ := List.exists_cons_of_ne_nil hdrop
  rw [hx, List.cons_append, List.cons_prefix_cons] at hfirst
  obtain ⟨rfl, hsecond⟩ := hfirst
  cases rest with
  | nil => exact hc (List.cons_prefix_cons.mp hsecond).1.symm
  | cons y rest =>
    obtain rfl := (List.cons_prefix_cons.mp hsecond).1
    refine h ((List.IsPrefix.isInfix ⟨rest, ?_⟩).trans (List.drop_suffix i front).isInfix)
    rw [hx, List.cons_append, List.cons_append, List.nil_append]

end KirkForge.Text

/-!
## Trimming

What `trim` takes off stands in front of the first character that is not white space, or behind the
last one; a text that is found has none of the characters that are taken off.
-/

namespace KirkForge.Text

variable {front back : List Char} {a : Char}

theorem trimStart_suffix (cs : List Char) : trimStart cs <:+ cs := List.dropWhile_suffix _

theorem trimEnd_isPrefix (cs : List Char) : trimEnd cs <+: cs := by
  rw [trimEnd, ← List.reverse_suffix, List.reverse_reverse]
  exact trimStart_suffix _

theorem trimStart_append_cons (ha : isWhitespace a = false) :
    trimStart (front ++ a :: back) = trimStart front ++ a :: back := by
  induction front with
  | nil => exact List.dropWhile_cons_of_neg (by rw [ha]; decide)
  | cons c front ih =>
    rw [trimStart, trimStart, List.cons_append, List.dropWhile_cons, List.dropWhile_cons]
    split
    · exact ih
    · rfl

theorem trimEnd_append_cons (ha : isWhitespace a = false) :
    trimEnd (front ++ a :: back) = front ++ a :: trimEnd back := by
  have hreverse : (front ++ a :: back).reverse = back.reverse ++ a :: front.reverse := by simp
  rw [trimEnd, hreverse, trimStart_append_cons ha, trimEnd]
  simp

/-- A text whose ends are not white space is not shortened by what stands around it. -/
theorem trim_around {text : List Char} {b : Char} (hhead : text.head? = some a)
    (hlast : text.getLast? = some b) (ha : isWhitespace a = false) (hb : isWhitespace b = false) :
    trimEnd (trimStart (front ++ (text ++ back))) =
      trimStart front ++ (text ++ trimEnd back) := by
  obtain ⟨rest, hrest⟩ := List.head?_eq_some_iff.mp hhead
  obtain ⟨init, hinit⟩ := List.getLast?_eq_some_iff.mp hlast
  have hstart : trimStart (front ++ (text ++ back)) = trimStart front ++ (text ++ back) := by
    rw [hrest, List.cons_append]
    exact trimStart_append_cons ha
  have hassoc (tail : List Char) : trimStart front ++ (text ++ tail) =
      (trimStart front ++ init) ++ b :: tail := by rw [hinit]; simp
  rw [hstart, hassoc, hassoc]
  exact trimEnd_append_cons hb

/-- Characters that the pattern does not have can be left out in front of a text. -/
theorem infix_append_of_notMem {pattern : List Char} (hne : pattern ≠ [])
    (hfront : ∀ c ∈ front, c ∉ pattern) : pattern <:+: front ++ back ↔ pattern <:+: back := by
  induction front with
  | nil => rfl
  | cons c front ih =>
    obtain ⟨hc, hfront⟩ := List.forall_mem_cons.mp hfront
    rw [List.cons_append, infix_cons_of_notMem hne hc, ih hfront]

end KirkForge.Text
