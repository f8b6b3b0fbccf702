import Mathlib.Data.List.Count
import Mathlib.Data.List.Pairwise

/-!
# Views of a list

What a query makes of a list: the entries that it selects, in its order, cut off at its limit. An
entry is shown if fewer selected entries come before it than the limit. Two views of one list are
the same if and only if they show as many entries, and what the one shows is selected by the other
and has the same entries before it.
-/

namespace KirkForge

/-- A selection with an order, and how many entries are shown of so many that are selected. -/
structure View (α : Type*) where
  selects : α → Bool
  le : α → α → Bool
  limit : Nat → Nat

namespace View

variable {α : Type*} {v w : View α} {pos : α → Nat} {l s t : List α} {a b : α}

/-- The order of the view, with entries that it does not tell apart in the order of the list. -/
def before (v : View α) (pos : α → Nat) (a b : α) : Bool :=
  v.le a b && (!v.le b a || pos a < pos b)

/-- How many selected entries come before this one. -/
def rank (v : View α) (pos : α → Nat) (l : List α) (a : α) : Nat :=
  l.countP fun b => v.selects b && v.before pos b a

/-- The entry is selected, and the limit reaches it. -/
def Shows (v : View α) (pos : α → Nat) (l : List α) (a : α) : Prop :=
  v.selects a = true ∧ v.rank pos l a < v.limit (l.countP v.selects)

/-- The selected entries of the list in the order of the view. -/
structure Arranged (v : View α) (pos : α → Nat) (l s : List α) : Prop where
  perm : s.Perm (l.filter v.selects)
  sorted : s.Pairwise fun a b => v.before pos a b = true

/-- What is shown of the arranged entries. -/
def shown (v : View α) (s : List α) : List α := s.take (v.limit s.length)

theorem not_before (h : v.before pos a b = true) : v.before pos b a = false := by
  rw [before, Bool.and_eq_true, Bool.or_eq_true, Bool.not_eq_true', decide_eq_true_eq] at h
  rw [before, Bool.and_eq_false_iff, Bool.or_eq_false_iff, Bool.not_eq_false',
    decide_eq_false_iff_not]
  rcases h.2 with hle | hlt
  · exact .inl hle
  · exact .inr ⟨h.1, Nat.lt_asymm hlt⟩

theorem before_irrefl : v.before pos a a = false := by
  cases h : v.before pos a a with
  | false => rfl
  | true => exact h ▸ not_before h

namespace Arranged

theorem mem_iff (h : v.Arranged pos l s) : a ∈ s ↔ a ∈ l ∧ v.selects a = true :=
  h.perm.mem_iff.trans List.mem_filter

theorem length_eq (h : v.Arranged pos l s) : s.length = l.countP v.selects := by
  rw [h.perm.length_eq, List.countP_eq_length_filter]

/-- Before an entry stand those that come before it. -/
theorem before_of_mem_take (h : v.Arranged pos l s) {k : Nat} (hk : s[k]? = some a) :
    ∀ b ∈ s.take k, v.before pos b a = true := by
  obtain ⟨hlt, rfl⟩ := List.getElem?_eq_some_iff.mp hk
  have hsorted := h.sorted
  rw [← List.take_append_drop k s] at hsorted
  have hmem : s[k] ∈ s.drop k := by
    rw [List.drop_eq_getElem_cons hlt]
    exact List.mem_cons_self
  exact fun b hb => (List.pairwise_append.mp hsorted).2.2 b hb s[k] hmem

theorem not_before_of_mem_drop (h : v.Arranged pos l s) {k : Nat} (hk : s[k]? = some a) :
    ∀ b ∈ s.drop k, v.before pos b a = false := by
  obtain ⟨hlt, rfl⟩ := List.getElem?_eq_some_iff.mp hk
  have hsorted := h.sorted.drop (i := k)
  rw [List.drop_eq_getElem_cons hlt] at hsorted ⊢
  intro b hb
  rcases List.mem_cons.mp hb with rfl | hb
  · exact before_irrefl
  · exact not_before ((List.pairwise_cons.mp hsorted).1 b hb)

theorem mem_take_iff (h : v.Arranged pos l s) {k : Nat} (hk : s[k]? = some a) :
    b ∈ s.take k ↔ b ∈ l ∧ (v.selects b && v.before pos b a) = true := by
  rw [Bool.and_eq_true, ← and_assoc, ← h.mem_iff]
  constructor
  · exact fun hb => ⟨List.mem_of_mem_take hb, h.before_of_mem_take hk b hb⟩
  · rintro ⟨hb, hbefore⟩
    rw [← List.take_append_drop k s] at hb
    rcases List.mem_append.mp hb with hb | hb
    · exact hb
    · rw [h.not_before_of_mem_drop hk b hb] at hbefore
      cases hbefore

theorem rank_eq (h : v.Arranged pos l s) {k : Nat} (hk : s[k]? = some a) : v.rank pos l a = k := by
  have hlt := (List.getElem?_eq_some_iff.mp hk).1
  have hrank : v.rank pos l a = s.countP fun b => v.before pos b a := by
    rw [h.perm.countP_eq, List.countP_filter, rank]
    exact List.countP_congr fun b _ => by rw [Bool.and_comm]
  have hfront : (s.take k).countP (fun b => v.before pos b a) = (s.take k).length :=
    List.countP_eq_length.mpr (h.before_of_mem_take hk)
  have hrest : (s.drop k).countP (fun b => v.before pos b a) = 0 :=
    List.countP_eq_zero.mpr fun b hb => Bool.eq_false_iff.mp (h.not_before_of_mem_drop hk b hb)
  calc v.rank pos l a
      = (s.take k ++ s.drop k).countP fun b => v.before pos b a := by
        rw [hrank, List.take_append_drop]
    _ = k := by
      rw [List.countP_append, hfront, hrest, Nat.add_zero,
        List.length_take_of_le (Nat.le_of_lt hlt)]

theorem getElem?_rank (h : v.Arranged pos l s) (ha : a ∈ l) (hselects : v.selects a = true) :
    s[v.rank pos l a]? = some a := by
  obtain ⟨i, hi⟩ := List.mem_iff_getElem?.mp (h.mem_iff.mpr ⟨ha, hselects⟩)
  rw [h.rank_eq hi, hi]

/-! #### What is shown -/

theorem length_shown (h : v.Arranged pos l s) :
    (v.shown s).length = min (v.limit (l.countP v.selects)) (l.countP v.selects) := by
  rw [shown, List.length_take, h.length_eq]

theorem getElem?_shown {k : Nat} :
    (v.shown s)[k]? = some a ↔ s[k]? = some a ∧ k < v.limit s.length := by
  rw [shown, List.getElem?_take]
  split
  next hk => simp [hk]
  next hk => simp [hk]

theorem mem_shown (h : v.Arranged pos l s) : a ∈ v.shown s ↔ a ∈ l ∧ v.Shows pos l a := by
  rw [List.mem_iff_getElem?, Shows, ← h.length_eq]
  constructor
  · rintro ⟨k, hk⟩
    obtain ⟨hk, hlimit⟩ := getElem?_shown.mp hk
    obtain ⟨hmem, hselects⟩ := h.mem_iff.mp (List.mem_of_getElem? hk)
    exact ⟨hmem, hselects, (h.rank_eq hk).symm ▸ hlimit⟩
  · rintro ⟨hmem, hselects, hlimit⟩
    exact ⟨_, getElem?_shown.mpr ⟨h.getElem?_rank hmem hselects, hlimit⟩⟩

/-- Two views of a list are the same if and only if they show as many entries, and what the one
shows is selected by the other and has the same selected entries before it. -/
theorem shown_eq_iff (h : v.Arranged pos l s) (h' : w.Arranged pos l t) :
    v.shown s = w.shown t ↔ (v.shown s).length = (w.shown t).length ∧
      ∀ a ∈ l, v.Shows pos l a → w.selects a = true ∧ ∀ b ∈ l,
        (v.selects b && v.before pos b a) = (w.selects b && w.before pos b a) := by
  constructor
  · intro heq
    refine ⟨congrArg _ heq, fun a ha hshows => ?_⟩
    obtain ⟨k, hk⟩ := List.mem_iff_getElem?.mp (h.mem_shown.mpr ⟨ha, hshows⟩)
    have hk' : (w.shown t)[k]? = some a := heq ▸ hk
    obtain ⟨hs, hlimit⟩ := getElem?_shown.mp hk
    obtain ⟨ht, hlimit'⟩ := getElem?_shown.mp hk'
    have htake : s.take k = t.take k := by
      have hshown := congrArg (List.take k) heq
      rwa [shown, shown, List.take_take, List.take_take, Nat.min_eq_left (Nat.le_of_lt hlimit),
        Nat.min_eq_left (Nat.le_of_lt hlimit')] at hshown
    refine ⟨(h'.mem_iff.mp (List.mem_of_getElem? ht)).2, fun b hb => Bool.eq_iff_iff.mpr ?_⟩
    have hv := h.mem_take_iff hs (b := b)
    have hw := h'.mem_take_iff ht (b := b)
    rw [htake, hw] at hv
    simpa only [hb, true_and] using hv.symm
  · rintro ⟨hlength, hsame⟩
    refine List.ext_getElem hlength fun k hk hk' => ?_
    obtain ⟨hs, -⟩ := getElem?_shown.mp (List.getElem?_eq_getElem hk)
    obtain ⟨ha, hshows⟩ := h.mem_shown.mp (List.getElem_mem hk)
    obtain ⟨hselects, hbefore⟩ := hsame _ ha hshows
    -- as many entries come before it in the other view
    have hrank : w.rank pos l (v.shown s)[k] = v.rank pos l (v.shown s)[k] :=
      List.countP_congr fun b hb => by rw [hbefore b hb]
    have ht := h'.getElem?_rank ha hselects
    rw [hrank, h.rank_eq hs] at ht
    obtain ⟨ht', -⟩ := getElem?_shown.mp (List.getElem?_eq_getElem hk')
    exact Option.some.inj (ht.symm.trans ht')

/-- The same for a view of entries that a map may have changed, but for what identifies them. -/
theorem shown_eq_map_iff {κ : Type*} {key : α → κ} {f : α → α} (hkey : ∀ a, key (f a) = key a)
    (hinj : ∀ a ∈ l, ∀ b ∈ l, key a = key b → a = b)
    (h : v.Arranged pos l s) (h' : w.Arranged pos l t) :
    v.shown s = (w.shown t).map f ↔
      v.shown s = w.shown t ∧ ∀ a ∈ l, v.Shows pos l a → f a = a := by
  constructor
  · intro heq
    have hsame : v.shown s = w.shown t := by
      refine List.ext_getElem? fun k => ?_
      have hk := congrArg (·[k]?) heq
      simp only [List.getElem?_map] at hk
      cases ht : (w.shown t)[k]? with
      | none =>
        rw [hk, ht]
        rfl
      | some b =>
        rw [ht, Option.map_some] at hk
        have hb := (h'.mem_shown.mp (List.mem_of_getElem? ht)).1
        have hfb := (h.mem_shown.mp (List.mem_of_getElem? hk)).1
        rw [hk, hinj (f b) hfb b hb (hkey b)]
    refine ⟨hsame, fun a ha hshows => ?_⟩
    obtain ⟨k, hk⟩ := List.mem_iff_getElem?.mp (h.mem_shown.mpr ⟨ha, hshows⟩)
    have hfk := congrArg (·[k]?) heq
    simp only [List.getElem?_map, ← hsame, hk, Option.map_some, Option.some.injEq] at hfk
    exact hfk.symm
  · rintro ⟨hsame, hall⟩
    have hfix : ∀ a ∈ v.shown s, f a = a := fun a ha =>
      let ⟨hmem, hshows⟩ := h.mem_shown.mp ha
      hall a hmem hshows
    rw [← hsame, List.map_congr_left hfix, List.map_id']

end Arranged

/-! ### Sorting -/

/-- An arrangement of images is the image of an arrangement. -/
theorem exists_perm_of_perm_map {β : Type*} {f : α → β} {m : List β} (h : (l.map f).Perm m) :
    ∃ t : List α, t.Perm l ∧ m = t.map f := by
  generalize hl : l.map f = k at h
  induction h generalizing l with
  | nil =>
    obtain rfl := List.map_eq_nil_iff.mp hl
    exact ⟨[], .refl _, rfl⟩
  | cons x _ ih =>
    obtain ⟨a, l, rfl, rfl, rfl⟩ := List.map_eq_cons_iff.mp hl
    obtain ⟨t, ht, rfl⟩ := ih rfl
    exact ⟨a :: t, ht.cons a, rfl⟩
  | swap x y _ =>
    obtain ⟨a, l, rfl, rfl, hrest⟩ := List.map_eq_cons_iff.mp hl
    obtain ⟨b, l, rfl, rfl, rfl⟩ := List.map_eq_cons_iff.mp hrest
    exact ⟨b :: a :: l, .swap a b l, rfl⟩
  | trans _ _ ih ih' =>
    obtain ⟨t, ht, hm⟩ := ih hl
    obtain ⟨t', ht', rfl⟩ := ih' hm.symm
    exact ⟨t', ht'.trans ht, rfl⟩

theorem not_both_sublist (h : s.Nodup) (hab : [a, b].Sublist s) : ¬[b, a].Sublist s := by
  induction s with
  | nil => cases hab
  | cons c s ih =>
    intro hba
    obtain ⟨hc, hs⟩ := List.nodup_cons.mp h
    cases hab with
    | cons _ hab =>
      cases hba with
      | cons _ hba => exact ih hs hab hba
      | cons_cons _ hba => exact hc (hab.subset (List.mem_cons_of_mem _ List.mem_cons_self))
    | cons_cons _ hab =>
      cases hba with
      | cons _ hba => exact hc (hba.subset (List.mem_cons_of_mem _ List.mem_cons_self))
      | cons_cons _ hba => exact hc (hba.subset List.mem_cons_self)

theorem pair_sublist_of_not_lt (h : l.Pairwise fun a b => pos a < pos b) (ha : a ∈ l) (hb : b ∈ l)
    (hne : a ≠ b) (hlt : ¬pos a < pos b) : [b, a].Sublist l := by
  induction h with
  | nil => cases ha
  | cons hhead _ ih =>
    rcases List.mem_cons.mp ha with rfl | ha'
    · rcases List.mem_cons.mp hb with rfl | hb'
      · exact absurd rfl hne
      · exact absurd (hhead b hb') hlt
    · rcases List.mem_cons.mp hb with rfl | hb'
      · exact (List.singleton_sublist.mpr ha').cons_cons b
      · exact (ih ha' hb').cons _

/-- The stable sort arranges the selected entries. -/
theorem arranged_mergeSort (htrans : ∀ a b c, v.le a b = true → v.le b c = true → v.le a c = true)
    (htotal : ∀ a b, (v.le a b || v.le b a) = true) (hpos : l.Pairwise fun a b => pos a < pos b) :
    v.Arranged pos l ((l.filter v.selects).mergeSort v.le) := by
  have hfilter := hpos.filter v.selects
  have hselected : (l.filter v.selects).Nodup :=
    hfilter.imp fun hlt heq => Nat.ne_of_lt hlt (congrArg pos heq)
  have hnodup := (List.mergeSort_perm (l.filter v.selects) v.le).nodup_iff.mpr hselected
  refine ⟨List.mergeSort_perm _ _, List.pairwise_iff_forall_sublist.mpr fun {a b} hab => ?_⟩
  have hle := List.pairwise_iff_forall_sublist.mp
    (List.pairwise_mergeSort htrans htotal (l.filter v.selects)) hab
  rw [before, hle, Bool.true_and, Bool.or_eq_true, Bool.not_eq_true', decide_eq_true_eq]
  cases hback : v.le b a with
  | false => exact .inl rfl
  | true =>
    -- entries that the order does not tell apart stay in the order of the list
    refine .inr (Decidable.byContradiction fun hlt => ?_)
    have hmem {c : α} (hc : c ∈ [a, b]) : c ∈ l.filter v.selects :=
      List.mem_mergeSort.mp (hab.subset hc)
    have hne : a ≠ b := fun heq =>
      (List.pairwise_cons.mp (hnodup.sublist hab)).1 b List.mem_cons_self heq
    have hba := pair_sublist_of_not_lt hfilter (hmem List.mem_cons_self)
      (hmem (List.mem_cons_of_mem _ List.mem_cons_self)) hne hlt
    exact not_both_sublist hnodup hab (List.pair_sublist_mergeSort htrans htotal hback hba)

end View

end KirkForge
