import KirkForge.Theory.Lists
import Mathlib.Data.List.Flatten

/-!
# Hash chains

A log whose entries each carry a tag: the hash of the tag before it and of the entry itself. The
hash does not depend on the tag of the entry that is hashed.
-/

namespace KirkForge.HashChain

variable {δ α : Type*} (hash : δ → α → δ) (tag : α → δ)

/-- Every tag is the hash of the tag before it and its entry, the first of them of `p`. -/
def Linked : δ → List α → Prop
  | _, [] => True
  | p, x :: xs => tag x = hash p x ∧ Linked (tag x) xs

/-- The last tag of a log, `p` if it is empty. -/
def lastTag (p : δ) (xs : List α) : δ := xs.foldl (fun _ x => tag x) p

/-- Tag the entries one after the other, each with what `mark` makes of the tag before it. -/
def markFrom (mark : δ → α → α) : δ → List α → List α
  | _, [] => []
  | p, x :: xs => mark p x :: markFrom mark (tag (mark p x)) xs

instance decidableLinked [DecidableEq δ] : ∀ (p : δ) (xs : List α),
    Decidable (Linked hash tag p xs)
  | _, [] => isTrue trivial
  | p, x :: xs =>
    have := decidableLinked (tag x) xs
    inferInstanceAs (Decidable (tag x = hash p x ∧ Linked hash tag (tag x) xs))

variable {hash tag}

@[simp] theorem lastTag_nil (p : δ) : lastTag tag p [] = p := rfl

@[simp] theorem lastTag_cons (p : δ) (x : α) (xs : List α) :
    lastTag tag p (x :: xs) = lastTag tag (tag x) xs := rfl

theorem lastTag_append (p : δ) (xs ys : List α) :
    lastTag tag p (xs ++ ys) = lastTag tag (lastTag tag p xs) ys := List.foldl_append

theorem linked_append {p : δ} {xs ys : List α} :
    Linked hash tag p (xs ++ ys) ↔
      Linked hash tag p xs ∧ Linked hash tag (lastTag tag p xs) ys := by
  induction xs generalizing p with
  | nil => simp [Linked]
  | cons x xs ih => simp only [List.cons_append, Linked, ih, lastTag_cons, and_assoc]

/-- A log stays linked when its entries are rewritten without a change to their tags and hashes. -/
theorem linked_map_iff {f : α → α} {p : δ} {xs : List α}
    (h : ∀ x ∈ xs, tag (f x) = tag x ∧ ∀ q, hash q (f x) = hash q x) :
    Linked hash tag p (xs.map f) ↔ Linked hash tag p xs := by
  induction xs generalizing p with
  | nil => exact Iff.rfl
  | cons x xs ih =>
    obtain ⟨⟨htag, hhash⟩, hxs⟩ := List.forall_mem_cons.mp h
    rw [List.map_cons, Linked, Linked, htag, hhash, ih hxs]

theorem lastTag_map {f : α → α} {p : δ} {xs : List α} (h : ∀ x ∈ xs, tag (f x) = tag x) :
    lastTag tag p (xs.map f) = lastTag tag p xs := by
  induction xs generalizing p with
  | nil => rfl
  | cons x xs ih =>
    obtain ⟨hx, hxs⟩ := List.forall_mem_cons.mp h
    rw [List.map_cons, lastTag_cons, lastTag_cons, hx, ih hxs]

/-! ### Replacing an entry -/

/-- An entry with the tag of the old one fits in exactly if it has the hash of the old one. -/
theorem linked_replace_iff {p : δ} {front back : List α} {x x' : α}
    (h : Linked hash tag p (front ++ x :: back)) (htag : tag x' = tag x) :
    Linked hash tag p (front ++ x' :: back) ↔
      hash (lastTag tag p front) x' = hash (lastTag tag p front) x := by
  obtain ⟨hfront, hx, hback⟩ := linked_append.mp h
  rw [linked_append, and_iff_right hfront, Linked, htag, and_iff_left hback, hx, eq_comm]

/-- An entry with the hashes of the old one fits in only with its tag. -/
theorem tag_eq_of_linked_replace {p : δ} {front back : List α} {x x' : α}
    (h : Linked hash tag p (front ++ x :: back)) (hhash : ∀ q, hash q x' = hash q x)
    (h' : Linked hash tag p (front ++ x' :: back)) : tag x' = tag x := by
  obtain ⟨-, hx, -⟩ := linked_append.mp h
  obtain ⟨-, hx', -⟩ := linked_append.mp h'
  rw [hx, hx', hhash]

/-! ### Marking -/

/-- Marking every entry with the hash of the tag before it makes a linked log. -/
theorem linked_markFrom {mark : δ → α → α} (h : ∀ p x, tag (mark p x) = hash p (mark p x)) (p : δ)
    (xs : List α) : Linked hash tag p (markFrom tag mark p xs) := by
  induction xs generalizing p with
  | nil => trivial
  | cons x xs ih => exact ⟨h p x, ih (tag (mark p x))⟩

theorem mem_markFrom {mark : δ → α → α} {p : δ} {xs : List α} {y : α}
    (h : y ∈ markFrom tag mark p xs) : ∃ x ∈ xs, ∃ q, y = mark q x := by
  induction xs generalizing p with
  | nil => exact absurd h List.not_mem_nil
  | cons x xs ih =>
    rcases List.mem_cons.mp h with rfl | h
    · exact ⟨x, List.mem_cons_self .., p, rfl⟩
    · obtain ⟨x', hx', q, hy⟩ := ih h
      exact ⟨x', List.mem_cons_of_mem x hx', q, hy⟩

/-! ### Leaving entries out -/

theorem exists_tag_of_mem {p : δ} {xs : List α} {x : α} (h : Linked hash tag p xs) (hx : x ∈ xs) :
    ∃ q ∈ p :: xs.map tag, tag x = hash q x := by
  induction xs generalizing p with
  | nil => cases hx
  | cons y xs ih =>
    obtain rfl | hx := List.mem_cons.mp hx
    · exact ⟨p, List.mem_cons_self, h.1⟩
    · obtain ⟨q, hq, htag⟩ := ih h.2 hx
      exact ⟨q, List.mem_cons_of_mem p hq, htag⟩

/-- No tag repeats where a hash gives back the tag before it. -/
theorem nodup_tags {good : δ → Prop} (hgood : ∀ p x, good (hash p x))
    (hhash : ∀ p q x y, good p → good q → hash p x = hash q y → p = q) {p : δ} {xs : List α}
    (h : Linked hash tag p xs) (hp : good p) (hroot : p ∉ xs.map tag) :
    (p :: xs.map tag).Nodup := by
  induction xs generalizing p with
  | nil => exact List.nodup_cons.mpr ⟨hroot, .nil⟩
  | cons x xs ih =>
    have hx : good (tag x) := h.1 ▸ hgood p x
    apply List.nodup_cons.mpr ⟨hroot, ih h.2 hx _⟩
    intro hmem
    obtain ⟨y, hy, hxy⟩ := List.mem_map.mp hmem
    obtain ⟨q, hq, htag⟩ := exists_tag_of_mem h.2 hy
    have hgoodq : good q := by
      obtain rfl | hq := List.mem_cons.mp hq
      · exact hx
      · obtain ⟨z, hz, rfl⟩ := List.mem_map.mp hq
        obtain ⟨r, -, hr⟩ := exists_tag_of_mem h.2 hz
        exact hr ▸ hgood r z
    have hpq : p = q := hhash p q x y hp hgoodq <| by rw [← h.1, ← htag, hxy]
    exact hroot (hpq ▸ hq)

/-- A part of a log in which no tag repeats is linked only if nothing is left out in front of it. -/
theorem linked_sublist_iff (hhash : ∀ p q x, hash p x = hash q x → p = q) {p : δ}
    {part xs : List α} (h : Linked hash tag p xs) (hnodup : (p :: xs.map tag).Nodup)
    (hpart : part.Sublist xs) : Linked hash tag p part ↔ part <+: xs := by
  constructor
  · intro hlinked
    induction hpart generalizing p with
    | slnil => exact List.prefix_rfl
    | @cons part xs x hpart ih =>
      cases part with
      | nil => exact List.nil_prefix
      | cons y part =>
        -- an entry that is left out stands between `p` and the entry behind it
        obtain ⟨q, hq, htag⟩ := exists_tag_of_mem h.2 (hpart.subset List.mem_cons_self)
        have hpq : p = q := hhash p q y <| by rw [← hlinked.1, ← htag]
        exact absurd (hpq ▸ hq) (List.nodup_cons.mp hnodup).1
    | @cons_cons part xs x hpart ih =>
      apply List.cons_prefix_cons.mpr ⟨rfl, ih h.2 _ hlinked.2⟩
      exact (List.nodup_cons.mp hnodup).2
  · rintro ⟨rest, rfl⟩
    exact (linked_append.mp h).1

/-- Batches of a log in which no tag repeats are linked only if none is left out in front of
another. -/
theorem linked_filter_iff {β : Type*} {q : β → Bool} {body : β → List α}
    (hhash : ∀ p q x, hash p x = hash q x → p = q) {p : δ} {batches : List β}
    (h : Linked hash tag p (batches.flatMap body))
    (hnodup : (p :: (batches.flatMap body).map tag).Nodup)
    (hbody : ∀ b ∈ batches, body b ≠ []) :
    Linked hash tag p ((batches.filter q).flatMap body) ↔
      batches.Pairwise fun earlier later => q later = true → q earlier = true := by
  have hpart : ((batches.filter q).flatMap body).Sublist (batches.flatMap body) :=
    List.filter_sublist.flatMap body
  rw [linked_sublist_iff hhash h hnodup hpart, ← Lists.filter_isPrefix_iff]
  have htags : ((batches.flatMap body).map tag).Nodup := (List.nodup_cons.mp hnodup).2
  clear h hnodup hpart
  constructor
  · intro hprefix
    induction batches with
    | nil => exact List.nil_prefix
    | cons b batches ih =>
      obtain ⟨hb, hbatches⟩ := List.forall_mem_cons.mp hbody
      rw [List.flatMap_cons, List.map_append, List.nodup_append] at htags
      cases hq : q b with
      | true =>
        rw [List.filter_cons_of_pos hq] at hprefix ⊢
        rw [List.flatMap_cons, List.flatMap_cons, List.prefix_append_right_inj] at hprefix
        exact List.cons_prefix_cons.mpr ⟨rfl, ih hbatches htags.2.1 hprefix⟩
      | false =>
        rw [List.filter_cons_of_neg (by simp [hq])] at hprefix ⊢
        cases hrest : batches.filter q with
        | nil => exact List.nil_prefix
        | cons c rest =>
          -- the first entry of a later batch stands where the batch that is left out begins
          have hc : c ∈ batches := List.mem_of_mem_filter (hrest ▸ List.mem_cons_self)
          obtain ⟨x, xs, hx⟩ := List.exists_cons_of_ne_nil hb
          obtain ⟨y, ys, hy⟩ := List.exists_cons_of_ne_nil (hbatches c hc)
          rw [hrest, List.flatMap_cons, List.flatMap_cons, hx, hy, List.cons_append,
            List.cons_append, List.cons_prefix_cons] at hprefix
          have hyc : y ∈ batches.flatMap body :=
            List.mem_flatMap.mpr ⟨c, hc, hy ▸ List.mem_cons_self⟩
          have hxb : x ∈ body b := hx ▸ List.mem_cons_self
          exact absurd (congrArg tag hprefix.1).symm
            (htags.2.2 _ (List.mem_map_of_mem hxb) _ (List.mem_map_of_mem hyc))
  · rintro ⟨rest, hrest⟩
    refine ⟨rest.flatMap body, ?_⟩
    rw [← List.flatMap_append, hrest]

end KirkForge.HashChain
