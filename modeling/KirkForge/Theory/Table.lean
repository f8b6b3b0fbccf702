import Mathlib.Data.List.Nodup
import Mathlib.Data.List.Perm.Subperm

/-!
# Tables with a primary key

A table as the list of its rows, and the insertion that replaces the row with the same key.
-/

namespace KirkForge.Table

variable {α κ : Type*} [DecidableEq κ] {key : α → κ}

/-- The row takes the place of the one with its key. -/
def put (key : α → κ) (row : α) (rows : List α) : List α :=
  rows.filter (fun r => key r ≠ key row) ++ [row]

theorem mem_put {row r : α} {rows : List α} :
    r ∈ put key row rows ↔ r = row ∨ r ∈ rows ∧ key r ≠ key row := by
  simp [put, or_comm]

theorem mem_put_self (row : α) (rows : List α) : row ∈ put key row rows := mem_put.mpr (.inl rfl)

/-- New rows with distinct keys are all there in the end, behind the rows with other keys. -/
theorem foldl_put {news : List α} (h : (news.map key).Nodup) (rows : List α) :
    news.foldl (fun rows row => put key row rows) rows =
      rows.filter (fun r => key r ∉ news.map key) ++ news := by
  induction news generalizing rows with
  | nil => simp
  | cons row news ih =>
    obtain ⟨hrow, hnews⟩ := List.nodup_cons.mp h
    have hkept : [row].filter (fun r => key r ∉ news.map key) = [row] :=
      List.filter_eq_self.mpr fun r hr => by
        rw [List.mem_singleton.mp hr]
        exact decide_eq_true hrow
    rw [List.foldl_cons, ih hnews, put, List.filter_append, hkept, List.filter_filter,
      List.append_assoc, List.singleton_append]
    congr 1
    refine List.filter_congr fun r _ => ?_
    rw [← Bool.decide_and, decide_eq_decide, List.map_cons, List.mem_cons, not_or]
    exact and_comm

theorem news_sublist_foldl_put {news : List α} (h : (news.map key).Nodup) (rows : List α) :
    news.Sublist (news.foldl (fun rows row => put key row rows) rows) := by
  rw [foldl_put h]
  exact List.sublist_append_right _ _

/-- Rows of the table whose keys are not among the new ones stay. -/
theorem sublist_foldl_put {news old rows : List α} (h : (news.map key).Nodup)
    (hrows : rows.Sublist old) (hold : ∀ r ∈ rows, key r ∉ news.map key) :
    rows.Sublist (news.foldl (fun rows row => put key row rows) old) := by
  rw [foldl_put h]
  have hkept := hrows.filter fun r => decide (key r ∉ news.map key)
  rw [List.filter_eq_self.mpr fun r hr => decide_eq_true (hold r hr)] at hkept
  exact hkept.trans (List.sublist_append_left _ _)

theorem nodup_keys_put {row : α} {rows : List α} (h : (rows.map key).Nodup) :
    ((put key row rows).map key).Nodup := by
  rw [put, List.map_append, List.nodup_append]
  refine ⟨h.sublist (List.filter_sublist.map key), List.nodup_singleton _, fun a ha b hb => ?_⟩
  obtain ⟨r, hr, rfl⟩ := List.mem_map.mp ha
  rw [List.mem_singleton.mp hb]
  exact of_decide_eq_true (List.mem_filter.mp hr).2

theorem nodup_keys_foldl_put {news rows : List α} (h : (rows.map key).Nodup) :
    ((news.foldl (fun rows row => put key row rows) rows).map key).Nodup := by
  induction news generalizing rows with
  | nil => exact h
  | cons row news ih => exact ih (nodup_keys_put h)

theorem mem_foldl_put {news rows : List α} {r : α}
    (h : r ∈ news.foldl (fun rows row => put key row rows) rows) : r ∈ rows ∨ r ∈ news := by
  induction news generalizing rows with
  | nil => exact .inl h
  | cons row news ih =>
    rcases ih h with h | h
    · rcases mem_put.mp h with rfl | ⟨h, -⟩
      · exact .inr List.mem_cons_self
      · exact .inl h
    · exact .inr (List.mem_cons_of_mem row h)

/-- Rows that satisfy `p` take the place of rows among those that do. -/
theorem filter_foldl_put {p : α → Bool} {news rows : List α} (hnews : ∀ r ∈ news, p r = true) :
    (news.foldl (fun rows row => put key row rows) rows).filter p =
      news.foldl (fun rows row => put key row rows) (rows.filter p) := by
  induction news generalizing rows with
  | nil => rfl
  | cons row news ih =>
    obtain ⟨hrow, hnews⟩ := List.forall_mem_cons.mp hnews
    rw [List.foldl_cons, List.foldl_cons, ih hnews, put, put, List.filter_append,
      List.filter_cons_of_pos hrow, List.filter_nil, List.filter_comm]

/-- As many rows as were put are only there if no key was put twice. -/
theorem nodup_of_length_le {news : List α}
    (hlength : news.length ≤ (news.foldl (fun rows row => put key row rows) []).length) :
    (news.map key).Nodup := by
  have hnodup : ((news.foldl (fun rows row => put key row rows) []).map key).Nodup :=
    nodup_keys_foldl_put List.nodup_nil
  have hsubset : (news.foldl (fun rows row => put key row rows) []).map key ⊆ news.map key := by
    refine List.map_subset key fun r hr => ?_
    exact (mem_foldl_put hr).resolve_left List.not_mem_nil
  have hperm := (List.subperm_of_subset hnodup hsubset).perm_of_length_le (by simpa using hlength)
  exact hperm.nodup_iff.mp hnodup

end KirkForge.Table
