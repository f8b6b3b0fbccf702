import Mathlib.Data.List.Count
import Mathlib.Logic.Function.Basic
import Mathlib.Logic.Relation

/-!
# Depth-first search

A search of a graph that colours a vertex gray when it is entered and black when it is left, and
counts the edges that lead to a gray vertex. The recursion is bounded by a number of calls that are
open at a time, of which as many as there are white vertices are enough (`exists_search`). Some edge
is counted exactly when the search meets a circle (`circle_of_lt`, `no_circle_of_eq`).
-/

namespace KirkForge.DepthFirst

inductive Color
  | white | gray | black
  deriving DecidableEq, Repr

structure State (α : Type*) where
  color : α → Color := fun _ => .white
  cycles : Nat := 0

variable {α : Type*} [DecidableEq α]

def State.paint (s : State α) (n : α) (c : Color) : State α :=
  { s with color := Function.update s.color n c }

/-- What an edge to `n` makes of the state, where `visit` enters a white vertex. -/
def follow (visit : State α → α → Option (State α)) (s : State α) (n : α) : Option (State α) :=
  match s.color n with
  | .gray => some { s with cycles := s.cycles + 1 }
  | .white => visit s n
  | .black => some s

/-- The search from `n`; `none` if more calls are open than there may be. -/
def visit (adj : α → List α) : Nat → State α → α → Option (State α)
  | 0, _, _ => none
  | depth + 1, s, n =>
    ((adj n).foldlM (follow (visit adj depth)) (s.paint n .gray)).map (·.paint n .black)

/-- The search from `n` if it is still white. -/
def enter (visit : State α → α → Option (State α)) (s : State α) (n : α) : Option (State α) :=
  if s.color n = .white then visit s n else some s

def search (adj : α → List α) (depth : Nat) (vertices : List α) : Option (State α) :=
  vertices.foldlM (enter (visit adj depth)) {}

variable {adj : α → List α} {depth : Nat} {s s' s'' : State α} {n x : α} {ns vertices : List α}

@[simp] theorem color_paint (s : State α) (n : α) (c : Color) :
    (s.paint n c).color = Function.update s.color n c := rfl

theorem visit_eq_some : visit adj (depth + 1) s n = some s' ↔
    ∃ t, (adj n).foldlM (follow (visit adj depth)) (s.paint n .gray) = some t ∧
      t.paint n .black = s' :=
  Option.map_eq_some_iff

/-! ### What a search leaves -/

/-- Between two states the gray vertices stay, the black ones stay black, and edges are only
counted. -/
structure Later (s s' : State α) : Prop where
  gray : ∀ x, s'.color x = .gray ↔ s.color x = .gray
  black : ∀ x, s.color x = .black → s'.color x = .black
  cycles : s.cycles ≤ s'.cycles

omit [DecidableEq α] in
theorem Later.refl (s : State α) : Later s s := ⟨fun _ => .rfl, fun _ h => h, Nat.le_refl _⟩

omit [DecidableEq α] in
theorem Later.trans (h : Later s s') (h' : Later s' s'') : Later s s'' :=
  ⟨fun x => (h'.gray x).trans (h.gray x), fun x hx => h'.black x (h.black x hx),
    Nat.le_trans h.cycles h'.cycles⟩

omit [DecidableEq α] in
/-- No vertex becomes white again. -/
theorem Later.white (h : Later s s') (hx : s'.color x = .white) : s.color x = .white := by
  cases hs : s.color x with
  | white => rfl
  | gray => rw [(h.gray x).mpr hs] at hx; cases hx
  | black => rw [h.black x hs] at hx; cases hx

omit [DecidableEq α] in
/-- A step that leads to a later state each time it is taken does so for a whole list. -/
theorem foldlM_later {f : State α → α → Option (State α)}
    (hf : ∀ s n s', f s n = some s' → Later s s') (h : ns.foldlM f s = some s') : Later s s' := by
  induction ns generalizing s with
  | nil =>
    cases h
    exact .refl _
  | cons n ns ih =>
    obtain ⟨t, ht, hrest⟩ := Option.bind_eq_some_iff.mp h
    exact (hf s n t ht).trans (ih hrest)

omit [DecidableEq α] in
theorem enter_later {visit : State α → α → Option (State α)}
    (hvisit : ∀ s n s', s.color n = .white → visit s n = some s' → Later s s')
    (h : enter visit s n = some s') : Later s s' := by
  rw [enter] at h
  split at h
  · next hwhite => exact hvisit s n s' hwhite h
  · cases h
    exact .refl s

omit [DecidableEq α] in
theorem follow_later {visit : State α → α → Option (State α)}
    (hvisit : ∀ s n s', s.color n = .white → visit s n = some s' → Later s s')
    (h : follow visit s n = some s') : Later s s' := by
  rw [follow] at h
  split at h
  · cases h
    exact ⟨fun _ => .rfl, fun _ h => h, Nat.le_succ _⟩
  · next hwhite => exact hvisit s n s' hwhite h
  · cases h
    exact .refl s

theorem visit_later (hwhite : s.color n = .white) (h : visit adj depth s n = some s') :
    Later s s' := by
  induction depth generalizing s n s' with
  | zero => cases h
  | succ depth ih =>
    obtain ⟨t, ht, rfl⟩ := visit_eq_some.mp h
    have hlater : Later (s.paint n .gray) t :=
      foldlM_later (fun s n s' hstep => follow_later (fun _ _ _ hw hv => ih hw hv) hstep) ht
    refine ⟨fun x => ?_, fun x hx => ?_, hlater.cycles⟩
    · by_cases hxn : x = n
      · subst hxn
        simp [hwhite]
      · have hgray := hlater.gray x
        simpa [Function.update_of_ne hxn] using hgray
    · have hxn : x ≠ n := by
        rintro rfl
        rw [hwhite] at hx
        cases hx
      have hblack := hlater.black x (by rw [color_paint, Function.update_of_ne hxn, hx])
      rw [color_paint, Function.update_of_ne hxn, hblack]

/-- The vertex is black in the end. -/
theorem visit_black (h : visit adj depth s n = some s') : s'.color n = .black := by
  cases depth with
  | zero => cases h
  | succ depth =>
    obtain ⟨t, -, rfl⟩ := visit_eq_some.mp h
    exact Function.update_self ..

/-! ### Counted edges -/

/-- There is a path of at least one edge. -/
def Path (adj : α → List α) : α → α → Prop := Relation.TransGen fun a b => b ∈ adj a

/-- Every gray vertex leads to `n`. -/
def Leads (adj : α → List α) (s : State α) (n : α) : Prop :=
  ∀ x, s.color x = .gray → Path adj x n

omit [DecidableEq α] in
theorem Leads.later (h : Leads adj s n) (hlater : Later s s') : Leads adj s' n :=
  fun x hx => h x ((hlater.gray x).mp hx)

/-- The first edge with which the count rises is on a circle. -/
theorem circle_of_lt_foldlM
    (hvisit : ∀ s n s', s.color n = .white → Leads adj s n → visit adj depth s n = some s' →
      s.cycles < s'.cycles → ∃ x, Path adj x x)
    (hleads : ∀ n ∈ ns, Leads adj s n) (h : ns.foldlM (follow (visit adj depth)) s = some s')
    (hlt : s.cycles < s'.cycles) : ∃ x, Path adj x x := by
  induction ns generalizing s with
  | nil =>
    cases h
    exact absurd hlt (Nat.lt_irrefl _)
  | cons n ns ih =>
    obtain ⟨t, ht, hrest⟩ := Option.bind_eq_some_iff.mp h
    obtain ⟨hn, hns⟩ := List.forall_mem_cons.mp hleads
    have hlater : Later s t := follow_later (fun _ _ _ hw hv => visit_later hw hv) ht
    by_cases hrise : s.cycles < t.cycles
    · rw [follow] at ht
      split at ht
      · next hgray => exact ⟨n, hn n hgray⟩
      · next hwhite => exact hvisit s n t hwhite hn ht hrise
      · cases ht
        exact absurd hrise (Nat.lt_irrefl _)
    · have hsame : s.cycles = t.cycles := Nat.le_antisymm hlater.cycles (Nat.not_lt.mp hrise)
      exact ih (fun m hm => (hns m hm).later hlater) hrest (hsame ▸ hlt)

/-- An edge is only counted on a circle. -/
theorem circle_of_lt_visit (hwhite : s.color n = .white) (hleads : Leads adj s n)
    (h : visit adj depth s n = some s') (hlt : s.cycles < s'.cycles) : ∃ x, Path adj x x := by
  induction depth generalizing s n s' with
  | zero => cases h
  | succ depth ih =>
    obtain ⟨t, ht, rfl⟩ := visit_eq_some.mp h
    have hstep : ∀ m ∈ adj n, Leads adj (s.paint n .gray) m := by
      intro m hm x hx
      by_cases hxn : x = n
      · subst hxn
        exact .single hm
      · rw [color_paint, Function.update_of_ne hxn] at hx
        exact (hleads x hx).tail hm
    exact circle_of_lt_foldlM (fun _ _ _ => ih) hstep ht hlt

/-! ### Circles -/

/-- The edges of black vertices lead to black vertices, none of which is on a circle. -/
structure Finished (adj : α → List α) (s : State α) : Prop where
  closed : ∀ x, s.color x = .black → ∀ y ∈ adj x, s.color y = .black
  no_circle : ∀ x, s.color x = .black → ¬Path adj x x

omit [DecidableEq α] in
/-- A path from a black vertex stays among these. -/
theorem Finished.path (h : Finished adj s) {x y : α} (hx : s.color x = .black)
    (hpath : Path adj x y) : s.color y = .black := by
  induction hpath with
  | single hy => exact h.closed x hx _ hy
  | tail _ hz ih => exact h.closed _ ih _ hz

/-- A list of edges none of which is counted leaves their targets black. -/
theorem finished_foldlM
    (hvisit : ∀ s n s', s.color n = .white → Finished adj s → visit adj depth s n = some s' →
      s'.cycles = s.cycles → Finished adj s')
    (hs : Finished adj s) (h : ns.foldlM (follow (visit adj depth)) s = some s')
    (hsame : s'.cycles = s.cycles) : Finished adj s' ∧ ∀ n ∈ ns, s'.color n = .black := by
  induction ns generalizing s with
  | nil =>
    cases h
    exact ⟨hs, List.forall_mem_nil _⟩
  | cons n ns ih =>
    obtain ⟨t, ht, hrest⟩ := Option.bind_eq_some_iff.mp h
    have hfollow {s n s' : _} (h : follow (visit adj depth) s n = some s') : Later s s' :=
      follow_later (fun _ _ _ hw hv => visit_later hw hv) h
    have hfirst := hfollow ht
    have hlast : Later t s' := foldlM_later (fun _ _ _ => hfollow) hrest
    have ht' : t.cycles = s.cycles :=
      Nat.le_antisymm (hsame ▸ hlast.cycles) hfirst.cycles
    have hstep : Finished adj t ∧ t.color n = .black := by
      rw [follow] at ht
      split at ht
      · cases ht
        exact absurd ht' (Nat.succ_ne_self _)
      · next hwhite => exact ⟨hvisit s n t hwhite hs ht ht', visit_black ht⟩
      · next hblack =>
        cases ht
        exact ⟨hs, hblack⟩
    obtain ⟨hfinished, hblack⟩ := ih hstep.1 hrest (hsame.trans ht'.symm)
    exact ⟨hfinished, List.forall_mem_cons.mpr ⟨hlast.black n hstep.2, hblack⟩⟩

/-- Where no edge is counted, what is black is finished. -/
theorem finished_visit (hwhite : s.color n = .white) (hs : Finished adj s)
    (h : visit adj depth s n = some s') (hsame : s'.cycles = s.cycles) : Finished adj s' := by
  induction depth generalizing s n s' with
  | zero => cases h
  | succ depth ih =>
    obtain ⟨t, ht, rfl⟩ := visit_eq_some.mp h
    have hpaint : Finished adj (s.paint n .gray) := by
      have hblack (x : α) : (s.paint n .gray).color x = .black ↔ s.color x = .black := by
        by_cases hxn : x = n
        · subst hxn
          simp [hwhite]
        · rw [color_paint, Function.update_of_ne hxn]
      refine ⟨fun x hx y hy => ?_, fun x hx => hs.no_circle x ((hblack x).mp hx)⟩
      exact (hblack y).mpr (hs.closed x ((hblack x).mp hx) y hy)
    obtain ⟨hfinished, hnext⟩ := finished_foldlM (fun _ _ _ => ih) hpaint ht hsame
    have hgray : t.color n = .gray :=
      ((foldlM_later (fun _ _ _ => follow_later fun _ _ _ hw hv => visit_later hw hv) ht).gray
        n).mpr (Function.update_self ..)
    have hblack (x : α) (hx : t.color x = .black) : (t.paint n .black).color x = .black := by
      by_cases hxn : x = n
      · subst hxn
        exact Function.update_self ..
      · rw [color_paint, Function.update_of_ne hxn, hx]
    -- a circle through `n` would leave it for a black vertex, and come back to a gray one
    have hnot : ¬Path adj n n := by
      intro hcircle
      obtain ⟨m, hm, hback⟩ := Relation.TransGen.head'_iff.mp hcircle
      rcases Relation.reflTransGen_iff_eq_or_transGen.mp hback with rfl | hback
      · rw [hnext n hm] at hgray
        cases hgray
      · rw [hfinished.path (hnext m hm) hback] at hgray
        cases hgray
    have hold (x : α) (hx : (t.paint n .black).color x = .black) : x = n ∨ t.color x = .black := by
      by_cases hxn : x = n
      · exact .inl hxn
      · rw [color_paint, Function.update_of_ne hxn] at hx
        exact .inr hx
    refine ⟨fun x hx y hy => ?_, fun x hx => ?_⟩
    · rcases hold x hx with rfl | hx
      · exact hblack y (hnext y hy)
      · exact hblack y (hfinished.closed x hx y hy)
    · rcases hold x hx with rfl | hx
      · exact hnot
      · exact hfinished.no_circle x hx

/-! ### The search from every vertex -/

omit [DecidableEq α] in
/-- Between two searches no vertex is gray. -/
theorem not_gray (h : Later {} s) (x : α) : s.color x ≠ .gray := by
  rw [ne_eq, h.gray x]
  exact Color.noConfusion

/-- A search that counts an edge has met a circle. -/
theorem circle_of_lt (h : search adj depth vertices = some s) (hlt : 0 < s.cycles) :
    ∃ x, Path adj x x := by
  suffices hrun : ∀ t, Later {} t → vertices.foldlM (enter (visit adj depth)) t = some s →
      t.cycles < s.cycles → ∃ x, Path adj x x from hrun {} (.refl _) h hlt
  clear h hlt
  induction vertices with
  | nil =>
    intro t _ h hlt
    cases h
    exact absurd hlt (Nat.lt_irrefl _)
  | cons n vertices ih =>
    intro t hlater h hlt
    obtain ⟨t', ht, hrest⟩ := Option.bind_eq_some_iff.mp h
    have hlater' : Later t t' := enter_later (fun _ _ _ hw hv => visit_later hw hv) ht
    by_cases hrise : t.cycles < t'.cycles
    · rw [enter] at ht
      split at ht
      · next hwhite =>
        exact circle_of_lt_visit hwhite (fun x hx => absurd hx (not_gray hlater x)) ht hrise
      · cases ht
        exact absurd hrise (Nat.lt_irrefl _)
    · have hsame : t.cycles = t'.cycles := Nat.le_antisymm hlater'.cycles (Nat.not_lt.mp hrise)
      exact ih t' (hlater.trans hlater') hrest (hsame ▸ hlt)

theorem finished_search {t : State α} (hlater : Later {} t) (ht : Finished adj t)
    (h : vertices.foldlM (enter (visit adj depth)) t = some s) (hsame : s.cycles = t.cycles) :
    Finished adj s ∧ ∀ n ∈ vertices, s.color n = .black := by
  induction vertices generalizing t with
  | nil =>
    cases h
    exact ⟨ht, List.forall_mem_nil _⟩
  | cons n vertices ih =>
    obtain ⟨t', hfirst, hrest⟩ := Option.bind_eq_some_iff.mp h
    have henter {s n s' : _} (h : enter (visit adj depth) s n = some s') : Later s s' :=
      enter_later (fun _ _ _ hw hv => visit_later hw hv) h
    have hlast : Later t' s := foldlM_later (fun _ _ _ => henter) hrest
    have hcycles : t'.cycles = t.cycles :=
      Nat.le_antisymm (hsame ▸ hlast.cycles) (henter hfirst).cycles
    have hlater' := hlater.trans (henter hfirst)
    have hstep : Finished adj t' ∧ t'.color n = .black := by
      rw [enter] at hfirst
      split at hfirst
      · next hwhite => exact ⟨finished_visit hwhite ht hfirst hcycles, visit_black hfirst⟩
      · next hwhite =>
        cases hfirst
        cases hn : t.color n with
        | white => exact absurd hn hwhite
        | gray => exact absurd hn (not_gray hlater n)
        | black => exact ⟨ht, rfl⟩
    obtain ⟨hfinished, hblack⟩ := ih hlater' hstep.1 hrest (hsame.trans hcycles.symm)
    exact ⟨hfinished, List.forall_mem_cons.mpr ⟨hlast.black n hstep.2, hblack⟩⟩

/-- Where no edge is counted there is no circle through a vertex. -/
theorem no_circle_of_eq (h : search adj depth vertices = some s) (hzero : s.cycles = 0)
    (hx : x ∈ vertices) : ¬Path adj x x := by
  have hstart : Finished adj ({} : State α) :=
    ⟨fun _ hx => (Color.noConfusion hx), fun _ hx => (Color.noConfusion hx)⟩
  obtain ⟨hfinished, hblack⟩ := finished_search (.refl _) hstart h hzero
  exact hfinished.no_circle x (hblack x hx)

/-! ### Enough calls -/

/-- The number of vertices that are still white. -/
def unvisited (vertices : List α) (s : State α) : Nat := vertices.countP fun n => s.color n = .white

omit [DecidableEq α] in
theorem unvisited_le (h : Later s s') : unvisited vertices s' ≤ unvisited vertices s :=
  List.countP_mono_left fun _ _ hn => decide_eq_true (h.white (of_decide_eq_true hn))

theorem unvisited_paint (hn : n ∈ vertices) (hwhite : s.color n = .white) :
    unvisited vertices (s.paint n .gray) < unvisited vertices s := by
  have hle (l : List α) : unvisited l (s.paint n .gray) ≤ unvisited l s := by
    refine List.countP_mono_left fun x _ hx => ?_
    by_cases hxn : x = n
    · simpa [hxn] using hwhite
    · simpa [Function.update_of_ne hxn] using hx
  obtain ⟨l, r, rfl⟩ := List.append_of_mem hn
  have hl := hle l
  have hr := hle r
  unfold unvisited at hl hr ⊢
  simp only [List.countP_append, List.countP_cons, color_paint, Function.update_self, hwhite] at *
  simp only [reduceCtorEq, decide_false, Bool.false_eq_true, if_false, decide_true, if_true]
  omega

omit [DecidableEq α] in
/-- A step that has a result where `P` holds, and keeps it, has one for a whole list. -/
theorem exists_foldlM {f : State α → α → Option (State α)} {P : State α → Prop}
    (hf : ∀ s, P s → ∀ n ∈ ns, ∃ s', f s n = some s' ∧ P s') (hs : P s) :
    ∃ s', ns.foldlM f s = some s' ∧ P s' := by
  induction ns generalizing s with
  | nil => exact ⟨s, rfl, hs⟩
  | cons n ns ih =>
    obtain ⟨t, ht, hPt⟩ := hf s hs n List.mem_cons_self
    obtain ⟨s', hs', hP⟩ := ih (fun s hs m hm => hf s hs m (List.mem_cons_of_mem n hm)) hPt
    exact ⟨s', by rw [List.foldlM_cons, ht]; exact hs', hP⟩

/-- A search has a result if as many calls may be open as there are white vertices. -/
theorem exists_visit (hclosed : ∀ x ∈ vertices, ∀ y ∈ adj x, y ∈ vertices) (hn : n ∈ vertices)
    (hwhite : s.color n = .white) (hdepth : unvisited vertices s ≤ depth) :
    ∃ s', visit adj depth s n = some s' := by
  induction depth generalizing s n with
  | zero =>
    have hlt := unvisited_paint hn hwhite
    omega
  | succ depth ih =>
    have hlt := unvisited_paint hn hwhite
    have hfollow : ∀ s, unvisited vertices s ≤ depth → ∀ m ∈ adj n,
        ∃ s', follow (visit adj depth) s m = some s' ∧ unvisited vertices s' ≤ depth := by
      intro s hs m hm
      have hresult : ∃ s', follow (visit adj depth) s m = some s' := by
        rw [follow]
        split
        · exact ⟨_, rfl⟩
        · next hwhite => exact ih (hclosed n hn m hm) hwhite hs
        · exact ⟨_, rfl⟩
      obtain ⟨s', hs'⟩ := hresult
      have hlater := follow_later (fun _ _ _ hw hv => visit_later hw hv) hs'
      exact ⟨s', hs', Nat.le_trans (unvisited_le hlater) hs⟩
    obtain ⟨t, ht, -⟩ := exists_foldlM hfollow (s := s.paint n .gray) (by omega)
    exact ⟨t.paint n .black, visit_eq_some.mpr ⟨t, ht, rfl⟩⟩

omit [DecidableEq α] in
theorem foldlM_mono {f g : State α → α → Option (State α)}
    (hfg : ∀ s n s', f s n = some s' → g s n = some s') (h : ns.foldlM f s = some s') :
    ns.foldlM g s = some s' := by
  induction ns generalizing s with
  | nil => exact h
  | cons n ns ih =>
    obtain ⟨t, ht, hrest⟩ := Option.bind_eq_some_iff.mp h
    rw [List.foldlM_cons, hfg s n t ht]
    exact ih hrest

/-- More calls lead to the same result. -/
theorem visit_mono {depth' : Nat} (hle : depth ≤ depth') (h : visit adj depth s n = some s') :
    visit adj depth' s n = some s' := by
  induction depth generalizing depth' s n s' with
  | zero => cases h
  | succ depth ih =>
    obtain ⟨depth', rfl⟩ := Nat.exists_eq_succ_of_ne_zero (Nat.ne_of_gt (Nat.zero_lt_of_lt hle))
    obtain ⟨t, ht, rfl⟩ := visit_eq_some.mp h
    refine visit_eq_some.mpr ⟨t, foldlM_mono (fun s m s' hstep => ?_) ht, rfl⟩
    rw [follow] at hstep ⊢
    split at hstep
    · exact hstep
    · exact ih (Nat.le_of_succ_le_succ hle) hstep
    · exact hstep

/-- The search has a result, and always the same, if as many calls may be open as there are
vertices. -/
theorem exists_search (hclosed : ∀ x ∈ vertices, ∀ y ∈ adj x, y ∈ vertices) :
    ∃ s, ∀ depth, vertices.length ≤ depth → search adj depth vertices = some s := by
  have henter : ∀ s, unvisited vertices s ≤ vertices.length → ∀ n ∈ vertices,
      ∃ s', enter (visit adj vertices.length) s n = some s' ∧
        unvisited vertices s' ≤ vertices.length := by
    intro s hs n hn
    have hresult : ∃ s', enter (visit adj vertices.length) s n = some s' := by
      rw [enter]
      split
      · next hwhite => exact exists_visit hclosed hn hwhite hs
      · exact ⟨_, rfl⟩
    obtain ⟨s', hs'⟩ := hresult
    exact ⟨s', hs', List.countP_le_length⟩
  obtain ⟨s, hs, -⟩ := exists_foldlM henter (s := {}) List.countP_le_length
  refine ⟨s, fun depth hdepth => foldlM_mono (fun s n s' hstep => ?_) hs⟩
  by_cases hwhite : s.color n = .white
  · rw [enter, if_pos hwhite] at hstep ⊢
    exact visit_mono hdepth hstep
  · rw [enter, if_neg hwhite] at hstep ⊢
    exact hstep

end KirkForge.DepthFirst
