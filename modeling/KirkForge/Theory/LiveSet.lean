import Mathlib.Data.List.Nodup
import Mathlib.Data.List.ReduceOption

/-!
# Sets that change while they are traversed

A set in the order of insertion, as `Set` is in ECMAScript: a list of places, those of deleted
elements being empty. A traversal goes through the places by their numbers, so that it meets what is
added on its way and passes over what is deleted. An element that is never deleted on its way it
meets exactly once.
-/

namespace KirkForge

/-- The places of a set. -/
abbrev LiveSet (α : Type*) := List (Option α)

namespace LiveSet

variable {α : Type*}

/-- The elements, in the order of insertion. -/
def elements (s : LiveSet α) : List α := s.reduceOption

/-- The first element from a place on, with the number of the place after it. -/
def nextFrom : Nat → LiveSet α → Option (Nat × α)
  | _, [] => none
  | i, none :: rest => nextFrom (i + 1) rest
  | i, some a :: _ => some (i + 1, a)

def next (s : LiveSet α) (i : Nat) : Option (Nat × α) := nextFrom i (s.drop i)

section

variable [DecidableEq α]

def add (a : α) (s : LiveSet α) : LiveSet α := if some a ∈ s then s else s ++ [some a]

def delete (a : α) (s : LiveSet α) : LiveSet α :=
  s.map fun place => if place = some a then none else place

end

@[simp] theorem elements_nil : elements ([] : LiveSet α) = [] := rfl

@[simp] theorem elements_append (s t : LiveSet α) : elements (s ++ t) = elements s ++ elements t :=
  List.reduceOption_append s t

@[simp] theorem elements_singleton (a : α) : elements [some a] = [a] := rfl

theorem mem_elements {s : LiveSet α} {a : α} : a ∈ elements s ↔ some a ∈ s :=
  List.reduceOption_mem_iff

/-! ### Traversals -/

theorem nextFrom_eq_none {i : Nat} {s : LiveSet α} (h : nextFrom i s = none) : elements s = [] := by
  induction s generalizing i with
  | nil => rfl
  | cons place rest ih =>
    cases place with
    | none => exact ih h
    | some a => exact nomatch h

theorem nextFrom_eq_some {i j : Nat} {a : α} {s : LiveSet α} (h : nextFrom i s = some (j, a)) :
    ∃ n, j = i + n ∧ n ≤ s.length ∧ elements (s.take n) = [a] := by
  induction s generalizing i with
  | nil => exact nomatch h
  | cons place rest ih =>
    cases place with
    | none =>
      obtain ⟨n, rfl, hn, ha⟩ := ih h
      exact ⟨n + 1, by omega, Nat.succ_le_succ hn, ha⟩
    | some b =>
      obtain ⟨rfl, rfl⟩ := Prod.mk.inj (Option.some.inj h)
      exact ⟨1, rfl, by simp, by simp⟩

/-- At the end of a traversal the elements are those of the places passed. -/
theorem elements_take_of_next_eq_none {s : LiveSet α} {i : Nat} (h : next s i = none) :
    elements (s.take i) = elements s := by
  conv_rhs => rw [← List.take_append_drop i s]
  rw [elements_append, nextFrom_eq_none h, List.append_nil]

/-- A step of a traversal passes one more element. -/
theorem elements_take_of_next_eq_some {s : LiveSet α} {i j : Nat} {a : α} (hi : i ≤ s.length)
    (h : next s i = some (j, a)) :
    j ≤ s.length ∧ elements (s.take j) = elements (s.take i) ++ [a] := by
  obtain ⟨n, rfl, hn, ha⟩ := nextFrom_eq_some h
  rw [List.length_drop] at hn
  exact ⟨by omega, by rw [List.take_add, elements_append, ha]⟩

theorem next_zero_eq_none_iff {s : LiveSet α} : next s 0 = none ↔ elements s = [] := by
  constructor
  · intro h
    rw [← elements_take_of_next_eq_none h, List.take_zero, elements_nil]
  · intro h
    rcases hnext : next s 0 with _ | ⟨j, a⟩
    · rfl
    · obtain ⟨-, htake⟩ := elements_take_of_next_eq_some (Nat.zero_le _) hnext
      have ha : a ∈ elements (s.take j) := by rw [htake]; simp
      rw [mem_elements] at ha
      exact absurd (mem_elements.mpr (List.mem_of_mem_take ha)) (by simp [h])

variable [DecidableEq α]

theorem elements_add (a : α) (s : LiveSet α) :
    elements (add a s) = if a ∈ elements s then elements s else elements s ++ [a] := by
  rw [add]
  by_cases ha : some a ∈ s
  · rw [if_pos ha, if_pos (mem_elements.mpr ha)]
  · rw [if_neg ha, if_neg (mt mem_elements.mp ha), elements_append, elements_singleton]

theorem elements_delete (a : α) (s : LiveSet α) :
    elements (delete a s) = (elements s).filter (· ≠ a) := by
  induction s with
  | nil => rfl
  | cons place rest ih =>
    cases place with
    | none => exact ih
    | some b =>
      rw [elements, delete] at ih ⊢
      by_cases hb : b = a <;> simp [hb, elements, ih]

theorem nodup_add {s : LiveSet α} (h : (elements s).Nodup) (a : α) :
    (elements (add a s)).Nodup := by
  rw [elements_add]
  split
  · exact h
  · next ha => exact List.concat_eq_append ▸ h.concat ha

theorem nodup_delete {s : LiveSet α} (h : (elements s).Nodup) (a : α) :
    (elements (delete a s)).Nodup := by
  rw [elements_delete]
  exact h.filter _

/-- A traversal has come to a place and met those elements on its way; of the elements that were not
deleted since it began, it has met every one before the place once, and no other. -/
structure Met (s : LiveSet α) (i : Nat) (met deleted : List α) : Prop where
  nodup : (elements s).Nodup
  place : i ≤ s.length
  count : ∀ a ∉ deleted, met.count a = if a ∈ elements (s.take i) then 1 else 0

namespace Met

variable {s : LiveSet α} {i : Nat} {met deleted : List α}

theorem begin (h : (elements s).Nodup) : Met s 0 [] [] := ⟨h, Nat.zero_le _, fun _ _ => rfl⟩

theorem step (h : Met s i met deleted) {j : Nat} {a : α} (hnext : next s i = some (j, a)) :
    Met s j (met ++ [a]) deleted := by
  obtain ⟨hj, htake⟩ := elements_take_of_next_eq_some h.place hnext
  refine ⟨h.nodup, hj, fun b hb => ?_⟩
  have hnodup : (elements (s.take i) ++ [a]).Nodup := by
    rw [← htake]
    have hall := h.nodup
    rw [← List.take_append_drop j s, elements_append] at hall
    exact hall.of_append_left
  rw [List.count_append, h.count b hb, htake]
  by_cases hba : b = a
  · subst hba
    have hnew : b ∉ elements (s.take i) := fun hmem =>
      (List.nodup_append.mp hnodup).2.2 b hmem b (List.mem_singleton_self b) rfl
    simp [hnew]
  · simp [hba, Ne.symm hba]

theorem add (h : Met s i met deleted) (a : α) : Met (LiveSet.add a s) i met deleted := by
  refine ⟨nodup_add h.nodup a, ?_, fun b hb => ?_⟩
  · rw [LiveSet.add]
    split
    · exact h.place
    · exact Nat.le_trans h.place (by simp)
  · have htake : (LiveSet.add a s).take i = s.take i := by
      rw [LiveSet.add]
      split
      · rfl
      · exact List.take_append_of_le_length h.place
    rw [h.count b hb, htake]

theorem delete (h : Met s i met deleted) (a : α) :
    Met (LiveSet.delete a s) i met (if a ∈ elements s then deleted ++ [a] else deleted) := by
  have hplace : i ≤ (LiveSet.delete a s).length := by simpa [LiveSet.delete] using h.place
  have htake : (LiveSet.delete a s).take i = LiveSet.delete a (s.take i) := by
    simp [LiveSet.delete, List.map_take]
  refine ⟨nodup_delete h.nodup a, hplace, fun b hb => ?_⟩
  have hsub : ∀ c ∈ elements (s.take i), c ∈ elements s := fun c hc =>
    mem_elements.mpr (List.mem_of_mem_take (mem_elements.mp hc))
  rw [htake, elements_delete]
  split at hb
  · rw [List.mem_append, List.mem_singleton, not_or] at hb
    simp [h.count b hb.1, hb.2]
  · next ha =>
    rw [h.count b hb]
    by_cases hba : b = a
    · subst hba
      have hb' : b ∉ elements (s.take i) := fun hmem => ha (hsub b hmem)
      simp [hb']
    · simp [hba]

/-- A traversal that has ended has met what was not deleted exactly once. -/
theorem finish (h : Met s i met deleted) (hnext : next s i = none) {a : α} (ha : a ∈ elements s)
    (hdeleted : a ∉ deleted) : met.count a = 1 := by
  rw [h.count a hdeleted, elements_take_of_next_eq_none hnext, if_pos ha]

end Met

end LiveSet

end KirkForge
