import KirkForge.Theory.Regex
import Mathlib.Data.List.Infix
import Mathlib.Data.Option.Basic

/-!
# What a replacement leaves of a text

Two general facts about the replacement of all matches of an expression. A unit that is no part of a
word and that the expression cannot read divides the text: what is before it and what is after it
are replaced on their own (`replaceAll_append_cons`). And if a match is replaced by its beginning
and some text put after it, the result contains nothing that the text did not, except where it meets
such a text (`infix_of_infix_replaceAll`). Both rest on what a match has read (`Reads`).
-/

namespace KirkForge.Regex

variable {α : Type*} {word : α → Bool}

/-! ### What a match has read -/

/-- The expression reads from one position to another, in whichever way. -/
inductive Reads (word : α → Bool) : Regex α → Cursor α → Cursor α → Prop
  | empty {c} : Reads word empty c c
  | one {p : α → Bool} {c : Cursor α} {a rest} (h : p a = true) (hc : c.rest = a :: rest) :
    Reads word (set p) c { c with prev := some a, rest := rest }
  | seq {r s c d e} (hr : Reads word r c d) (hs : Reads word s d e) : Reads word (seq r s) c e
  | left {r s c d} (h : Reads word r c d) : Reads word (alt r s) c d
  | right {r s c d} (h : Reads word s c d) : Reads word (alt r s) c d
  | done {greedy r c} : Reads word (star greedy r) c c
  | more {greedy r c d e} (hr : Reads word r c d) (hs : Reads word (star greedy r) d e) :
    Reads word (star greedy r) c e
  | boundary {c} : Reads word boundary c c
  | group {n r c d} (h : Reads word r c d) :
    Reads word (group n r) c { d with groups := (n, c.until d) :: d.groups }

theorem eq_some_of_orElse {β : Type*} {x y : Option β} {b : β} (h : (x <|> y) = some b) :
    x = some b ∨ y = some b := by
  cases x with
  | none => exact .inr h
  | some a => exact .inl h

theorem rounds_reads {greedy : Bool} {r : Regex α}
    (ih : ∀ c k e, run word r c k = some e → ∃ d, Reads word r c d ∧ k d = some e) :
    ∀ n c k e, rounds greedy (run word r) n c k = some e →
      ∃ d, Reads word (star greedy r) c d ∧ k d = some e := by
  intro n
  induction n with
  | zero => exact fun c k e h => ⟨c, .done, h⟩
  | succ n ihn =>
    intro c k e h
    have hmore : ∀ e, (run word r c fun c' =>
        if c'.rest.length < c.rest.length then rounds greedy (run word r) n c' k else none) = some e →
        ∃ d, Reads word (star greedy r) c d ∧ k d = some e := by
      intro e h
      obtain ⟨d, hd, h⟩ := ih _ _ _ h
      split at h
      · obtain ⟨d', hd', h⟩ := ihn _ _ _ h
        exact ⟨d', .more hd hd', h⟩
      · cases h
    rw [rounds] at h
    cases greedy with
    | true =>
      obtain h | h := eq_some_of_orElse h
      · exact hmore e h
      · exact ⟨c, .done, h⟩
    | false =>
      obtain h | h := eq_some_of_orElse h
      · exact ⟨c, .done, h⟩
      · exact hmore e h

/-- A match goes on from a position to which it has read. -/
theorem run_reads {r : Regex α} {c e : Cursor α} {k : Cont α} (h : run word r c k = some e) :
    ∃ d, Reads word r c d ∧ k d = some e := by
  induction r generalizing c e k with
  | empty => exact ⟨c, .empty, h⟩
  | set p =>
    rw [run] at h
    split at h
    · cases h
    next a rest hc =>
    split at h
    · next hp => exact ⟨_, .one hp hc, h⟩
    · cases h
  | seq r s ihr ihs =>
    obtain ⟨d, hd, h⟩ := ihr h
    obtain ⟨d', hd', h⟩ := ihs h
    exact ⟨d', .seq hd hd', h⟩
  | alt r s ihr ihs =>
    obtain h | h := eq_some_of_orElse h
    · obtain ⟨d, hd, h⟩ := ihr h
      exact ⟨d, .left hd, h⟩
    · obtain ⟨d, hd, h⟩ := ihs h
      exact ⟨d, .right hd, h⟩
  | star greedy r ih => exact rounds_reads (fun _ _ _ => ih) _ _ _ _ h
  | boundary =>
    rw [run] at h
    split at h
    · exact ⟨c, .boundary, h⟩
    · cases h
  | group n r ih =>
    obtain ⟨d, hd, h⟩ := ih h
    exact ⟨_, .group hd, h⟩

theorem exec_reads {r : Regex α} {prev : Option α} {rest : List α} {c : Cursor α}
    (h : exec word r prev rest = some c) : Reads word r { prev := prev, rest := rest } c := by
  obtain ⟨d, hd, h⟩ := run_reads h
  cases h
  exact hd

theorem Reads.suffix {r : Regex α} {c d : Cursor α} (h : Reads word r c d) : d.rest <:+ c.rest := by
  induction h with
  | empty | done | boundary => exact List.suffix_refl _
  | one _ hc => exact hc ▸ List.suffix_cons _ _
  | seq _ _ ihr ihs | more _ _ ihr ihs => exact ihs.trans ihr
  | left _ ih | right _ ih | group _ ih => exact ih

/-- What is between two positions, and what follows it. -/
theorem Reads.until_append {r : Regex α} {c d : Cursor α} (h : Reads word r c d) :
    c.until d ++ d.rest = c.rest := by
  obtain ⟨read, hread⟩ := h.suffix
  rw [Cursor.until, ← hread, List.length_append, Nat.add_sub_cancel, List.take_left]

/-- The least number of units that are read. -/
def least : Regex α → Nat
  | empty | boundary | star _ _ => 0
  | set _ => 1
  | seq r s => least r + least s
  | alt r s => min (least r) (least s)
  | group _ r => least r

theorem Reads.length_add_least {r : Regex α} {c d : Cursor α} (h : Reads word r c d) :
    d.rest.length + r.least ≤ c.rest.length := by
  induction h with
  | empty | done | boundary => exact Nat.le_refl _
  | one _ hc =>
    rw [hc]
    exact Nat.le_refl _
  | seq _ _ ihr ihs =>
    rw [least]
    omega
  | left _ ih | right _ ih =>
    rw [least]
    omega
  | more hr hs =>
    exact hs.suffix.length_le.trans hr.suffix.length_le
  | group _ ih => exact ih

/-- The expression sets no group. -/
def groupless : Regex α → Bool
  | group _ _ => false
  | empty | boundary | set _ => true
  | seq r s | alt r s => groupless r && groupless s
  | star _ r => groupless r

theorem Reads.groups_eq {r : Regex α} {c d : Cursor α} (h : Reads word r c d)
    (hr : r.groupless = true) : d.groups = c.groups := by
  induction h with
  | empty | done | boundary | one => rfl
  | seq _ _ ihr ihs =>
    rw [groupless, Bool.and_eq_true] at hr
    exact (ihs hr.2).trans (ihr hr.1)
  | left _ ih =>
    rw [groupless, Bool.and_eq_true] at hr
    exact ih hr.1
  | right _ ih =>
    rw [groupless, Bool.and_eq_true] at hr
    exact ih hr.2
  | more _ _ ihr ihs => exact (ihs hr).trans (ihr hr)
  | group => cases hr

/-- A match that is longer than a text with which its rest begins goes on behind this text. -/
theorem Reads.exists_until_eq {r : Regex α} {c d : Cursor α} {kept : List α}
    (h : Reads word r c d) (hkept : kept <+: c.rest)
    (hlt : kept.length + d.rest.length < c.rest.length) :
    ∃ lost, c.until d = kept ++ lost ∧ lost ≠ [] := by
  have htext := h.until_append
  have hlength := congrArg List.length htext
  rw [List.length_append] at hlength
  obtain ⟨lost, hlost⟩ := List.prefix_of_prefix_length_le hkept ⟨d.rest, htext⟩ (by omega)
  refine ⟨lost, hlost.symm, ?_⟩
  rintro rfl
  rw [List.append_nil] at hlost
  rw [← hlost] at hlength
  omega

/-- What stands at the beginning of every match. -/
def Starts (word : α → Bool) (r : Regex α) (kept : List α) : Prop :=
  ∀ c d, Reads word r c d → kept <+: c.rest

theorem starts_nil (r : Regex α) : Starts word r [] := fun _ _ _ => List.nil_prefix

theorem Starts.seq {r s : Regex α} {kept : List α} (h : Starts word r kept) :
    Starts word (.seq r s) kept := fun c _ hread => by
  cases hread with
  | seq hr _ => exact h c _ hr

theorem Starts.after_boundary {r : Regex α} {kept : List α} (h : Starts word r kept) :
    Starts word (.seq .boundary r) kept := fun c d hread => by
  cases hread with
  | seq hb hr =>
    cases hb
    exact h c d hr

theorem Starts.group {n : Nat} {r : Regex α} {kept : List α} (h : Starts word r kept) :
    Starts word (.group n r) kept := fun c _ hread => by
  cases hread with
  | group hr => exact h c _ hr

theorem Reads.exists_sets {ps : List (α → Bool)} {c d : Cursor α}
    (h : Reads word (concat (ps.map set)) c d) :
    ∃ read, c.rest = read ++ d.rest ∧ List.Forall₂ (fun p a => p a = true) ps read := by
  induction ps generalizing c with
  | nil =>
    cases h
    exact ⟨[], rfl, .nil⟩
  | cons p ps ih =>
    cases h with
    | seq hp hps =>
      cases hp with
      | one hp hc =>
        obtain ⟨read, hread, hall⟩ := ih hps
        exact ⟨_ :: read, by rw [hc, List.cons_append, ← hread], .cons hp hall⟩

theorem Reads.exists_choice {rs : List (Regex α)} {c d : Cursor α}
    (h : Reads word (choice rs) c d) : ∃ r ∈ rs, Reads word r c d := by
  induction rs with
  | nil =>
    cases h with
    | one h _ => cases h
  | cons r rs ih =>
    cases rs with
    | nil => exact ⟨r, List.mem_cons_self, h⟩
    | cons s rs =>
      cases h with
      | left h => exact ⟨r, List.mem_cons_self, h⟩
      | right h =>
        obtain ⟨r', hr', h⟩ := ih h
        exact ⟨r', List.mem_cons_of_mem r hr', h⟩

/-- A literal reads its text, up to the case of letters if that is ignored. -/
theorem Reads.exists_literal {word : Nat → Bool} {ignoreCase : Bool} {s : String}
    {c d : Cursor Nat} (h : Reads word (literal ignoreCase s) c d) :
    ∃ read, c.rest = read ++ d.rest ∧
      List.Forall₂ (fun u v => unit ignoreCase u v = true) (Text.utf16 s) read := by
  rw [literal, ← Function.comp_def, ← List.map_map] at h
  obtain ⟨read, hread, hall⟩ := h.exists_sets
  exact ⟨read, hread, List.forall₂_map_left_iff.mp hall⟩

theorem starts_literal {word : Nat → Bool} (s : String) :
    Starts word (literal false s) (Text.utf16 s) := fun c d hread => by
  obtain ⟨read, hread, hall⟩ := hread.exists_literal
  have heq : Text.utf16 s = read :=
    List.forall₂_eq_eq_eq ▸ hall.imp fun u v huv => by simpa [unit, eq_comm] using huv
  exact ⟨d.rest, by rw [heq, hread]⟩

/-! ### Expressions that cannot read a unit -/

/-- The expression cannot read `q`. -/
def avoids (q : α) : Regex α → Bool
  | empty | boundary => true
  | set p => !p q
  | seq r s | alt r s => avoids q r && avoids q s
  | star _ r | group _ r => avoids q r

/-- Two positions that an expression cannot tell apart, as long as it does not read `t`. -/
structure Cursor.Extends (word : α → Bool) (t : List α) (c c' : Cursor α) : Prop where
  rest : c'.rest = c.rest ++ t
  prev : c'.prev.any word = c.prev.any word
  groups : c'.groups = c.groups

/-- The expression cannot read the first unit of `t`, which is no part of a word. -/
def Blocked (word : α → Bool) (r : Regex α) (t : List α) : Prop :=
  ∀ q ∈ t.head?, word q = false ∧ r.avoids q = true

open Cursor (Extends)

theorem rel_orElse {β γ : Type*} {R : β → γ → Prop} {x y : Option β} {x' y' : Option γ}
    (hx : Option.Rel R x x') (hy : Option.Rel R y y') : Option.Rel R (x <|> y) (x' <|> y') := by
  cases hx with
  | some h => exact .some h
  | none => exact hy

theorem rounds_extends {greedy : Bool} {r : Regex α} {t : List α}
    (ih : ∀ c c' k k', Extends word t c c' →
      (∀ d d', Extends word t d d' → Option.Rel (Extends word t) (k d) (k' d')) →
      Option.Rel (Extends word t) (run word r c k) (run word r c' k'))
    {k k' : Cont α}
    (hk : ∀ d d', Extends word t d d' → Option.Rel (Extends word t) (k d) (k' d')) :
    ∀ n c c', c.rest.length ≤ n → Extends word t c c' →
      Option.Rel (Extends word t) (rounds greedy (run word r) n c k)
        (rounds greedy (run word r) (n + t.length) c' k') := by
  intro n
  induction n with
  | zero =>
    intro c c' hn hc
    cases t with
    | nil => exact hk c c' hc
    | cons q t =>
      -- nothing is left to read before `q`, so a round from `c'` reads nothing either
      have hnone : Option.Rel (Extends word (q :: t)) none (run word r c' fun d' =>
          if d'.rest.length < c'.rest.length then
            rounds greedy (run word r) (0 + t.length) d' k' else none) := by
        have h := ih c c' (fun _ => none) (fun d' => if d'.rest.length < c'.rest.length then
          rounds greedy (run word r) (0 + t.length) d' k' else none) hc fun d d' hd => by
            rw [if_neg (by rw [hd.rest, hc.rest, List.length_append, List.length_append]; omega)]
            exact .none
        have hempty : run word r c (fun _ => none) = none := by
          rw [Option.eq_none_iff_forall_not_mem]
          intro e he
          obtain ⟨_, _, h⟩ := run_reads he
          cases h
        rwa [hempty] at h
      rw [List.length_cons, ← Nat.add_assoc, rounds, rounds]
      split
      · exact rel_orElse hnone (hk c c' hc)
      · have h := rel_orElse (hk c c' hc) hnone
        rwa [show (k c <|> none) = k c by cases k c <;> rfl] at h
  | succ n ihn =>
    intro c c' hn hc
    rw [Nat.add_right_comm, rounds, rounds]
    have hmore := ih c c'
      (fun d => if d.rest.length < c.rest.length then rounds greedy (run word r) n d k else none)
      (fun d' => if d'.rest.length < c'.rest.length then
        rounds greedy (run word r) (n + t.length) d' k' else none) hc fun d d' hd => by
          have hlt : d'.rest.length < c'.rest.length ↔ d.rest.length < c.rest.length := by
            rw [hd.rest, hc.rest, List.length_append, List.length_append, Nat.add_lt_add_iff_right]
          by_cases h : d.rest.length < c.rest.length
          · rw [if_pos h, if_pos (hlt.mpr h)]
            exact ihn d d' (by omega) hd
          · rw [if_neg h, if_neg (mt hlt.mp h)]
            exact .none
    split
    · exact rel_orElse hmore (hk c c' hc)
    · exact rel_orElse (hk c c' hc) hmore

/-- An expression goes the same way whatever follows what it cannot read. -/
theorem run_extends {r : Regex α} {t : List α} (ht : Blocked word r t) {c c' : Cursor α}
    {k k' : Cont α} (hc : Extends word t c c')
    (hk : ∀ d d', Extends word t d d' → Option.Rel (Extends word t) (k d) (k' d')) :
    Option.Rel (Extends word t) (run word r c k) (run word r c' k') := by
  induction r generalizing c c' k k' with
  | empty => exact hk c c' hc
  | set p =>
    rw [run, run, hc.rest]
    cases hrest : c.rest with
    | nil =>
      cases t with
      | nil => exact .none
      | cons q t =>
        have hp : p q = false := by simpa [avoids] using (ht q rfl).2
        simp [hp]
    | cons a rest =>
      simp only [List.cons_append]
      split
      · exact hk _ _ ⟨rfl, rfl, hc.groups⟩
      · exact .none
  | seq r s ihr ihs =>
    have hrs : Blocked word r t ∧ Blocked word s t := by
      simp only [Blocked, avoids, Bool.and_eq_true] at ht
      exact ⟨fun q hq => ⟨(ht q hq).1, (ht q hq).2.1⟩, fun q hq => ⟨(ht q hq).1, (ht q hq).2.2⟩⟩
    exact ihr hrs.1 hc fun d d' hd => ihs hrs.2 hd hk
  | alt r s ihr ihs =>
    have hrs : Blocked word r t ∧ Blocked word s t := by
      simp only [Blocked, avoids, Bool.and_eq_true] at ht
      exact ⟨fun q hq => ⟨(ht q hq).1, (ht q hq).2.1⟩, fun q hq => ⟨(ht q hq).1, (ht q hq).2.2⟩⟩
    exact rel_orElse (ihr hrs.1 hc hk) (ihs hrs.2 hc hk)
  | star greedy r ih =>
    have hlength : c'.rest.length = c.rest.length + t.length := by
      rw [hc.rest, List.length_append]
    rw [run, run, hlength]
    exact rounds_extends (fun _ _ _ _ hc hk => ih ht hc hk) hk _ _ _ (Nat.le_refl _) hc
  | boundary =>
    have hhead : c'.rest.head?.any word = c.rest.head?.any word := by
      rw [hc.rest]
      cases hrest : c.rest with
      | cons a rest => rfl
      | nil =>
        cases t with
        | nil => rfl
        | cons q t => simpa using (ht q rfl).1
    rw [run, run, hc.prev, hhead]
    split
    · exact hk c c' hc
    · exact .none
  | group n r ih =>
    refine ih ht hc fun d d' hd => hk _ _ ⟨hd.rest, hd.prev, ?_⟩
    have huntil : c'.until d' = c.until d := by
      rw [Cursor.until, Cursor.until, hd.rest, hc.rest, List.length_append, List.length_append,
        Nat.add_sub_add_right, List.take_append_of_le_length (Nat.sub_le ..)]
    simp only [hd.groups, huntil]

theorem exec_extends {r : Regex α} {t : List α} (ht : Blocked word r t) {prev prev' : Option α}
    (hprev : prev'.any word = prev.any word) (rest : List α) :
    Option.Rel (Extends word t) (exec word r prev rest) (exec word r prev' (rest ++ t)) :=
  run_extends ht ⟨rfl, hprev, rfl⟩ fun _ _ hd => .some hd

/-! ### Replacing around such a unit -/

variable {r : Regex α} {f : List α → List (Nat × List α) → List α}

theorem until_of_extends {t : List α} {c c' d d' : Cursor α} (hc : Extends word t c c')
    (hd : Extends word t d d') : c'.until d' = c.until d := by
  rw [Cursor.until, Cursor.until, hd.rest, hc.rest, List.length_append, List.length_append,
    Nat.add_sub_add_right, List.take_append_of_le_length (Nat.sub_le ..)]

/-- What is before a text matters only as far as a word ends there. -/
theorem replaceFrom_prev {prev prev' : Option α} (h : prev'.any word = prev.any word)
    (text : List α) : replaceFrom word r f 0 prev' text = replaceFrom word r f 0 prev text := by
  have hexec := exec_extends (r := r) (t := []) (fun _ hq => nomatch hq) h text
  rw [List.append_nil] at hexec
  cases text with
  | nil =>
    rw [replaceFrom, replaceFrom]
    revert hexec
    cases exec word r prev [] <;> cases exec word r prev' [] <;> intro hexec <;> cases hexec
    · rfl
    · next h => simp only [h.groups]
  | cons a rest =>
    rw [replaceFrom, replaceFrom]
    revert hexec
    cases exec word r prev (a :: rest) <;> cases exec word r prev' (a :: rest) <;> intro hexec <;>
      cases hexec
    · rfl
    · next h =>
        have hstart : Extends word [] ⟨prev, a :: rest, []⟩ ⟨prev', a :: rest, []⟩ :=
          ⟨(List.append_nil _).symm, ‹_›, rfl⟩
        simp only [until_of_extends hstart h, h.groups]

theorem replaceFrom_append_cons {q : α} {y : List α} (hq : word q = false)
    (hr : r.avoids q = true) (x : List α) :
    ∀ skip prev, skip ≤ x.length → replaceFrom word r f skip prev (x ++ q :: y) =
      replaceFrom word r f skip prev x ++ q :: replaceFrom word r f 0 (some q) y := by
  have ht : Blocked word r (q :: y) := by
    intro q' hq'
    cases hq'
    exact ⟨hq, hr⟩
  induction x with
  | nil =>
    intro skip prev hskip
    cases Nat.le_zero.mp hskip
    have hexec := exec_extends ht (Eq.refl (prev.any word)) []
    rw [List.nil_append] at hexec ⊢
    rw [replaceFrom, replaceFrom]
    revert hexec
    cases exec word r prev [] <;> cases exec word r prev (q :: y) <;> intro hexec <;> cases hexec
    · rfl
    · next h =>
        have hnil (d : Cursor α) : (⟨prev, [], []⟩ : Cursor α).until d = [] := List.take_nil
        have hstart : Extends word (q :: y) ⟨prev, [], []⟩ ⟨prev, q :: y, []⟩ := ⟨rfl, rfl, rfl⟩
        simp only [(until_of_extends hstart h).trans (hnil _), List.length_nil, h.groups]
  | cons a x ih =>
    intro skip prev hskip
    cases skip with
    | succ skip =>
      rw [List.cons_append, replaceFrom, replaceFrom]
      exact ih skip _ (Nat.le_of_succ_le_succ hskip)
    | zero =>
      have hexec := exec_extends ht (Eq.refl (prev.any word)) (a :: x)
      rw [List.cons_append] at hexec ⊢
      rw [replaceFrom, replaceFrom]
      revert hexec
      cases exec word r prev (a :: x) <;> cases exec word r prev (a :: (x ++ q :: y)) <;>
        intro hexec <;> cases hexec
      · exact congrArg (a :: ·) (ih 0 _ (Nat.zero_le _))
      · next d d' h =>
          have hstart : Extends word (q :: y) ⟨prev, a :: x, []⟩ ⟨prev, a :: (x ++ q :: y), []⟩ :=
            ⟨rfl, rfl, rfl⟩
          have hle : ((⟨prev, a :: x, []⟩ : Cursor α).until d).length ≤ x.length + 1 := by
            rw [Cursor.until, List.length_take]
            exact (Nat.min_le_right ..).trans (Nat.le_refl _)
          simp only [until_of_extends hstart h, h.groups]
          split
          · rw [ih 0 _ (Nat.zero_le _), List.append_assoc, List.cons_append]
          · next n hn => rw [ih n _ (by omega), List.append_assoc]

/-- A text is replaced before and after such a unit on its own. -/
theorem replaceAll_append_cons {q : α} (hq : word q = false) (hr : r.avoids q = true)
    (x y : List α) : replaceAll word r f (x ++ q :: y) =
      replaceAll word r f x ++ q :: replaceAll word r f y := by
  have hprev : (some q).any word = none.any word := hq
  rw [replaceAll, replaceFrom_append_cons hq hr x 0 none (Nat.zero_le _), replaceFrom_prev hprev y]
  rfl

/-! ### What is made -/

/-- Wherever `kept ++ made` is written, `v` is before `made` or after it. -/
def Apart (v kept made : List α) : Prop :=
  ∀ pre post l r, pre ++ (kept ++ made) ++ post = l ++ v ++ r →
    l.length + v.length ≤ pre.length + kept.length ∨
      pre.length + kept.length + made.length ≤ l.length

/-- A text that has neither the first nor the last unit of what is made is at most a part of it. -/
theorem apart_of_ends {v kept made : List α} {a b : α} (ha : made.head? = some a)
    (hb : made.getLast? = some b) (hav : a ∉ v) (hbv : b ∉ v) (h : ¬v <:+: made) :
    Apart v kept made := by
  intro pre post l r heq
  by_contra hmeet
  rw [not_or, Nat.not_le, Nat.not_le] at hmeet
  have hget (i : Nat) (hl : l.length ≤ i) (hi : i < l.length + v.length) :
      ∃ u ∈ v, (pre ++ (kept ++ made) ++ post)[i]? = some u := by
    have hlt : i - l.length < v.length := by omega
    refine ⟨v[i - l.length], List.getElem_mem _, ?_⟩
    rw [heq, List.append_assoc, List.getElem?_append_right hl, List.getElem?_append_left hlt,
      List.getElem?_eq_getElem]
  have hmade (j : Nat) (hj : j < made.length) :
      (pre ++ (kept ++ made) ++ post)[pre.length + kept.length + j]? = made[j]? := by
    rw [List.append_assoc, List.getElem?_append_right (by omega), List.append_assoc,
      List.getElem?_append_right (by omega), List.getElem?_append_left (by omega)]
    congr 1
    omega
  have hpos : 0 < made.length := by
    cases made with
    | nil => cases ha
    | cons => exact Nat.succ_pos _
  obtain hfirst | hfirst := Nat.lt_or_ge (pre.length + kept.length) l.length
  · obtain hlast | hlast :=
      Nat.lt_or_ge (l.length + v.length) (pre.length + kept.length + made.length)
    · -- `v` is inside
      have hl : pre ++ kept <+: l :=
        List.prefix_of_prefix_length_le ⟨made ++ post, by simpa using heq⟩ ⟨v ++ r, by simp⟩
          (by rw [List.length_append]; omega)
      obtain ⟨l, rfl⟩ := hl
      have hrest : made ++ post = l ++ v ++ r := by simpa using heq
      have hfront : l ++ v <+: made :=
        List.prefix_of_prefix_length_le ⟨r, hrest.symm⟩ ⟨post, rfl⟩
          (by simp only [List.length_append] at hlast ⊢; omega)
      obtain ⟨r, rfl⟩ := hfront
      exact h ⟨l, r, rfl⟩
    · obtain ⟨u, hu, hget⟩ := hget (pre.length + kept.length + (made.length - 1))
        (by omega) (by omega)
      rw [hmade _ (by omega), ← List.getLast?_eq_getElem?, hb] at hget
      cases hget
      exact hbv hu
  · obtain ⟨u, hu, hget⟩ := hget (pre.length + kept.length + 0) (by omega) (by omega)
    rw [hmade 0 hpos, ← List.head?_eq_getElem?, ha] at hget
    cases hget
    exact hav hu

theorem Apart.of_isInfix {v kept made : List α} (h : Apart v kept made) {pre post : List α}
    (hv : v <:+: pre ++ (kept ++ made) ++ post) : v <:+: pre ++ kept ∨ v <:+: post := by
  obtain ⟨l, r, heq⟩ := hv
  obtain hbefore | hafter := h pre post l r heq.symm
  · left
    have hfront : l ++ v <+: pre ++ kept :=
      List.prefix_of_prefix_length_le ⟨r, heq⟩ ⟨made ++ post, by simp⟩
        (by simpa only [List.length_append] using hbefore)
    exact (List.suffix_append l v).isInfix.trans hfront.isInfix
  · right
    have hsuffix : v ++ r <:+ post :=
      List.suffix_of_suffix_length_le ⟨l, by rw [← heq, List.append_assoc]⟩
        (List.suffix_append _ _) (by
          have hlength := congrArg List.length heq
          simp only [List.length_append] at hlength ⊢
          omega)
    exact (List.prefix_append v r).isInfix.trans hsuffix.isInfix

/-- Of a match only a beginning is left, and what is put after it is apart from `v`. -/
def Replaces (word : α → Bool) (r : Regex α) (f : List α → List (Nat × List α) → List α)
    (v : List α) : Prop :=
  ∀ prev rest c, exec word r prev rest = some c →
    ∃ kept lost made, (⟨prev, rest, []⟩ : Cursor α).until c = kept ++ lost ∧ lost ≠ [] ∧
      f ((⟨prev, rest, []⟩ : Cursor α).until c) c.groups = kept ++ made ∧ Apart v kept made

theorem exists_replaceFrom_skip (rest : List α) : ∀ n prev, n ≤ rest.length →
    ∃ prev', replaceFrom word r f n prev rest = replaceFrom word r f 0 prev' (rest.drop n) := by
  induction rest with
  | nil =>
    intro n prev hn
    cases Nat.le_zero.mp hn
    exact ⟨prev, rfl⟩
  | cons a rest ih =>
    intro n prev hn
    cases n with
    | zero => exact ⟨prev, rfl⟩
    | succ n =>
      obtain ⟨prev', h⟩ := ih n (some a) (Nat.le_of_succ_le_succ hn)
      exact ⟨prev', h⟩

/-- What is found at the beginning is replaced, and the search goes on behind it. -/
theorem exists_replaceFrom_match {prev : Option α} {a : α} {rest : List α} {c : Cursor α}
    (h : exec word r prev (a :: rest) = some c)
    (hfound : (⟨prev, a :: rest, []⟩ : Cursor α).until c ≠ []) :
    ∃ prev', replaceFrom word r f 0 prev (a :: rest) =
      f ((⟨prev, a :: rest, []⟩ : Cursor α).until c) c.groups ++
        replaceFrom word r f 0 prev' c.rest := by
  have htext := (exec_reads h).until_append
  generalize hread : (⟨prev, a :: rest, []⟩ : Cursor α).until c = found at *
  cases found with
  | nil => exact absurd rfl hfound
  | cons b found =>
    cases htext
    have hskip : ∃ prev', replaceFrom word r f found.length (some a) (found ++ c.rest) =
        replaceFrom word r f 0 prev' ((found ++ c.rest).drop found.length) :=
      exists_replaceFrom_skip _ _ _ (by rw [List.length_append]; omega)
    obtain ⟨prev', hskip⟩ := hskip
    rw [List.drop_left] at hskip
    refine ⟨prev', ?_⟩
    rw [replaceFrom, h]
    simp only [hread, List.length_cons]
    exact congrArg (f (a :: found) c.groups ++ ·) hskip

/-- What is in the text after `pre`, and in none of what is made, was there before. It is no longer
than the text, and shorter if there was a match. -/
theorem infix_of_infix_replaceFrom {v : List α} (h : Replaces word r f v) (n : Nat) :
    ∀ text prev pre, text.length = n → v <:+: pre ++ replaceFrom word r f 0 prev text →
      v <:+: pre ++ text ∧
        (testFrom word r prev text = true → v.length < (pre ++ text).length) := by
  induction n using Nat.strong_induction_on with
  | _ n ih =>
    intro text prev pre hn hv
    cases text with
    | nil =>
      rw [replaceFrom] at hv
      rw [testFrom]
      cases hexec : exec word r prev [] with
      | none =>
        rw [hexec] at hv
        refine ⟨hv, fun htest => ?_⟩
        cases htest
      | some c =>
        obtain ⟨kept, lost, made, hfound, hlost, -⟩ := h prev [] c hexec
        have hnil : kept ++ lost = [] := hfound.symm.trans List.take_nil
        exact absurd (List.append_eq_nil_iff.mp hnil).2 hlost
    | cons a rest =>
      rw [testFrom]
      cases hexec : exec word r prev (a :: rest) with
      | none =>
        rw [replaceFrom, hexec] at hv
        have hlt : rest.length < n := by
          rw [← hn]
          exact Nat.lt_succ_self _
        have hrest := ih rest.length hlt rest (some a) (pre ++ [a]) rfl
          (by rwa [List.append_assoc, List.singleton_append])
        rwa [List.append_assoc, List.singleton_append] at hrest
      | some c =>
        obtain ⟨kept, lost, made, hfound, hlost, hmade, hapart⟩ := h prev (a :: rest) c hexec
        have htext : kept ++ lost ++ c.rest = a :: rest := by
          rw [← hfound]
          exact (exec_reads hexec).until_append
        have hlength := congrArg List.length htext
        simp only [List.length_append, List.length_cons] at hlength hn
        have hpos : 0 < lost.length := List.length_pos_iff.mpr hlost
        obtain ⟨prev', hreplace⟩ := exists_replaceFrom_match (f := f) hexec (by simp [hfound, hlost])
        rw [hreplace, hmade, ← List.append_assoc] at hv
        obtain hv | hv := hapart.of_isInfix hv
        · refine ⟨?_, fun _ => ?_⟩
          · rw [← htext]
            exact hv.trans ⟨[], lost ++ c.rest, by simp⟩
          · have hle := hv.length_le
            rw [List.length_append] at hle
            rw [List.length_append, List.length_cons, ← hlength]
            omega
        · obtain ⟨hrest, -⟩ := ih c.rest.length (by omega) c.rest prev' [] rfl hv
          refine ⟨?_, fun _ => ?_⟩
          · rw [← htext]
            exact hrest.trans ⟨pre ++ (kept ++ lost), [], by simp⟩
          · have hle := hrest.length_le
            rw [List.nil_append] at hle
            rw [List.length_append, List.length_cons, ← hlength]
            omega

/-- Nothing that is apart from what is made comes into a text by a replacement. -/
theorem infix_of_infix_replaceAll {v text : List α} (h : Replaces word r f v)
    (hv : v <:+: replaceAll word r f text) : v <:+: text :=
  (infix_of_infix_replaceFrom h _ text none [] rfl hv).1

/-- A text in which there is a match is not left in the result. -/
theorem not_infix_replaceAll_self {v : List α} (h : Replaces word r f v)
    (htest : test word r v = true) : ¬v <:+: replaceAll word r f v :=
  fun hv => Nat.lt_irrefl _ ((infix_of_infix_replaceFrom h _ v none [] rfl hv).2 htest)

/-! ### Expressions that do not look around -/

def boundaryFree : Regex α → Bool
  | boundary => false
  | empty | set _ => true
  | seq r s | alt r s => boundaryFree r && boundaryFree s
  | star _ r | group _ r => boundaryFree r

theorem isSome_orElse {β : Type*} {x y : Option β} :
    (x <|> y).isSome = true ↔ x.isSome = true ∨ y.isSome = true := by
  cases x <;> simp

theorem isSome_rounds {greedy : Bool} {round : Cursor α → Cont α → Option (Cursor α)} (n : Nat)
    {c : Cursor α} {k : Cont α} (h : (k c).isSome = true) :
    (rounds greedy round n c k).isSome = true := by
  cases n with
  | zero => exact h
  | succ n =>
    rw [rounds]
    split
    · exact isSome_orElse.mpr (.inr h)
    · exact isSome_orElse.mpr (.inl h)

/-- A match that does not look around is one whatever is before it and after it. -/
theorem isSome_run {r : Regex α} (hr : r.boundaryFree = true) {t : List α} {c c' : Cursor α}
    {k k' : Cont α} (hc : c'.rest = c.rest ++ t)
    (hk : ∀ d d' : Cursor α, d'.rest = d.rest ++ t → (k d).isSome = true → (k' d').isSome = true)
    (h : (run word r c k).isSome = true) : (run word r c' k').isSome = true := by
  induction r generalizing c c' k k' with
  | empty => exact hk c c' hc h
  | set p =>
    rw [run] at h ⊢
    rw [hc]
    cases hrest : c.rest with
    | nil => simp [hrest] at h
    | cons a rest =>
      simp only [hrest, List.cons_append] at h ⊢
      by_cases hp : p a = true
      · rw [if_pos hp] at h ⊢
        exact hk _ _ rfl h
      · rw [if_neg hp] at h
        cases h
  | seq r s ihr ihs =>
    rw [boundaryFree, Bool.and_eq_true] at hr
    exact ihr hr.1 hc (fun d d' hd h => ihs hr.2 hd hk h) h
  | alt r s ihr ihs =>
    rw [boundaryFree, Bool.and_eq_true] at hr
    exact isSome_orElse.mpr ((isSome_orElse.mp h).imp (ihr hr.1 hc hk) (ihs hr.2 hc hk))
  | star greedy r ih =>
    have hrounds : ∀ n (c c' : Cursor α), c'.rest = c.rest ++ t →
        (rounds greedy (run word r) n c k).isSome = true →
        (rounds greedy (run word r) (n + t.length) c' k').isSome = true := by
      intro n
      induction n with
      | zero => exact fun c c' hc h => isSome_rounds _ (hk c c' hc h)
      | succ n ihn =>
        intro c c' hc h
        rw [Nat.add_right_comm, rounds]
        rw [rounds] at h
        have hmore : (run word r c fun d => if d.rest.length < c.rest.length then
              rounds greedy (run word r) n d k else none).isSome = true →
            (run word r c' fun d' => if d'.rest.length < c'.rest.length then
              rounds greedy (run word r) (n + t.length) d' k' else none).isSome = true :=
          ih hr hc fun d d' hd h => by
            split at h
            · next hlt =>
              rw [if_pos (by rw [hd, hc, List.length_append, List.length_append]; omega)]
              exact ihn d d' hd h
            · cases h
        cases greedy with
        | true => exact isSome_orElse.mpr ((isSome_orElse.mp h).imp hmore (hk c c' hc))
        | false => exact isSome_orElse.mpr ((isSome_orElse.mp h).imp (hk c c' hc) hmore)
    have hlength : c'.rest.length = c.rest.length + t.length := by rw [hc, List.length_append]
    rw [run, hlength]
    exact hrounds _ c c' hc h
  | boundary => cases hr
  | group n r ih =>
    have hk' : ∀ d d' : Cursor α, d'.rest = d.rest ++ t →
        (k { d with groups := (n, c.until d) :: d.groups }).isSome = true →
        (k' { d' with groups := (n, c'.until d') :: d'.groups }).isSome = true :=
      fun d d' hd => hk { d with groups := _ } { d' with groups := _ } hd
    exact ih hr hc hk' h

theorem exists_exec_of_testFrom {text : List α} {prev : Option α}
    (h : testFrom word r prev text = true) :
    ∃ before rest prev, text = before ++ rest ∧ (exec word r prev rest).isSome = true := by
  induction text generalizing prev with
  | nil => exact ⟨[], [], prev, rfl, h⟩
  | cons a rest ih =>
    rw [testFrom, Bool.or_eq_true] at h
    obtain h | h := h
    · exact ⟨[], a :: rest, prev, rfl, h⟩
    · obtain ⟨before, rest', prev', rfl, hexec⟩ := ih h
      exact ⟨a :: before, rest', prev', rfl, hexec⟩

/-- No match begins in `pre`, where `text` follows. -/
def Passed (word : α → Bool) (r : Regex α) (pre text : List α) : Prop :=
  ∀ before rest, pre = before ++ rest → rest ≠ [] → ∀ prev, exec word r prev (rest ++ text) = none

theorem Passed.not_test (hr : r.boundaryFree = true)
    (hread : ∀ prev rest c, exec word r prev rest = some c → c.rest.length < rest.length)
    {pre text v : List α} (h : Passed word r pre text) (hv : v <:+: pre) :
    test word r v = false := by
  refine Bool.eq_false_iff.mpr fun htest => ?_
  obtain ⟨before, rest, prev, rfl, hexec⟩ := exists_exec_of_testFrom htest
  obtain ⟨c, hc⟩ := Option.isSome_iff_exists.mp hexec
  obtain ⟨l, r', rfl⟩ := hv
  have hne : rest ≠ [] := by
    rintro rfl
    exact Nat.not_lt_zero _ (hread _ _ _ hc)
  have hnone := h (l ++ before) (rest ++ r') (by simp) (by simp [hne]) none
  have hsome : (exec word r none (rest ++ r' ++ text)).isSome = true :=
    isSome_run hr (List.append_assoc ..) (fun _ _ _ _ => rfl) hexec
  rw [hnone] at hsome
  cases hsome

/-- A unit at which no match begins is passed. -/
theorem Passed.concat (hr : r.boundaryFree = true) {pre rest : List α} {prev : Option α} {a : α}
    (h : Passed word r pre (a :: rest)) (hexec : exec word r prev (a :: rest) = none) :
    Passed word r (pre ++ [a]) rest := by
  intro before behind hsplit hne prev'
  have hnone : ∀ prev', exec word r prev' (a :: rest) = none := by
    intro prev'
    by_contra hsome
    have h : (exec word r prev ((a :: rest) ++ [])).isSome = true :=
      isSome_run hr rfl (fun _ _ _ _ => rfl) (Option.isSome_iff_ne_none.mpr hsome)
    rw [List.append_nil, hexec] at h
    cases h
  obtain ⟨behind', b, rfl⟩ := (List.eq_nil_or_concat' behind).resolve_left hne
  rw [← List.append_assoc] at hsplit
  obtain ⟨hpre, hb⟩ := List.append_inj' hsplit rfl
  cases hb
  cases behind' with
  | nil => exact hnone prev'
  | cons b behind' =>
    have hpassed := h before (b :: behind') hpre (List.cons_ne_nil _ _) prev'
    rwa [List.append_assoc, List.singleton_append]

/-- If nothing of a match is left, no text in which there is one is in the result, whatever was
around it. -/
theorem not_test_of_infix_replaceFrom {v : List α} (hr : r.boundaryFree = true)
    (hread : ∀ prev rest c, exec word r prev rest = some c → c.rest.length < rest.length)
    (h : ∀ found groups, Apart v [] (f found groups)) (n : Nat) :
    ∀ text prev pre, text.length = n → Passed word r pre text →
      v <:+: pre ++ replaceFrom word r f 0 prev text → test word r v = false := by
  induction n using Nat.strong_induction_on with
  | _ n ih =>
    intro text prev pre hn hpassed hv
    cases text with
    | nil =>
      rw [replaceFrom] at hv
      cases hexec : exec word r prev [] with
      | none =>
        rw [hexec, List.append_nil] at hv
        exact hpassed.not_test hr hread hv
      | some c => exact absurd (hread _ _ _ hexec) (Nat.not_lt_zero _)
    | cons a rest =>
      cases hexec : exec word r prev (a :: rest) with
      | none =>
        rw [replaceFrom, hexec] at hv
        have hlt : rest.length < n := by
          rw [← hn]
          exact Nat.lt_succ_self _
        exact ih rest.length hlt rest (some a) (pre ++ [a]) rfl (hpassed.concat hr hexec)
          (by rwa [List.append_assoc, List.singleton_append])
      | some c =>
        have hlt := hread _ _ _ hexec
        obtain ⟨prev', hreplace⟩ := exists_replaceFrom_match (f := f) hexec fun hnil => by
          have htext := (exec_reads hexec).until_append
          rw [hnil, List.nil_append] at htext
          rw [htext] at hlt
          exact Nat.lt_irrefl _ hlt
        have hsplit : v <:+: pre ++ ([] ++ f ((⟨prev, a :: rest, []⟩ : Cursor α).until c) c.groups) ++
            replaceFrom word r f 0 prev' c.rest := by
          rwa [hreplace, ← List.append_assoc] at hv
        obtain hv | hv := (h _ _).of_isInfix hsplit
        · exact hpassed.not_test hr hread (by rwa [List.append_nil] at hv)
        · refine ih c.rest.length (by omega) c.rest prev' [] rfl ?_ hv
          intro before behind hsplit hne
          exact absurd (List.append_eq_nil_iff.mp hsplit.symm).2 hne

theorem not_infix_replaceAll {v : List α} (hr : r.boundaryFree = true)
    (hread : ∀ prev rest c, exec word r prev rest = some c → c.rest.length < rest.length)
    (h : ∀ found groups, Apart v [] (f found groups)) (htest : test word r v = true)
    (text : List α) : ¬v <:+: replaceAll word r f text := by
  intro hv
  have hpassed : Passed word r [] text := fun before rest hsplit hne =>
    absurd (List.append_eq_nil_iff.mp hsplit.symm).2 hne
  rw [not_test_of_infix_replaceFrom hr hread h _ text none [] rfl hpassed hv] at htest
  cases htest

end KirkForge.Regex
