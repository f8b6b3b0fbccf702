import KirkForge.Theory.OrderedMap
import Mathlib.Data.List.Count
import Mathlib.Data.List.Perm.Subperm
import Mathlib.Logic.Function.Iterate
import Mathlib.Order.WellFoundedSet

/-!
# Kahn's algorithm

Topological sorting of a multigraph by in-degrees and a queue, on insertion-ordered maps. An edge
`(d, n)` says that `n` depends on `d`; an edge whose source is not a vertex raises the in-degree of
its target and is never released. Every vertex of the result comes after all its dependencies
(`closed_order`) and none is repeated; where no dependency runs in a circle, none is missing either
(`mem_order`).
-/

namespace KirkForge.Kahn

variable {α : Type*} [DecidableEq α]

structure Graph (α : Type*) where
  inDegree : OrderedMap α Int
  adj : OrderedMap α (List α)

def Graph.addVertex (g : Graph α) (n : α) : Graph α where
  inDegree := g.inDegree.set n 0
  adj := g.adj.set n []

def Graph.addEdge (g : Graph α) (e : α × α) : Graph α where
  inDegree := g.inDegree.set e.2 ((g.inDegree.get? e.2).getD 0 + 1)
  adj :=
    match g.adj.get? e.1 with
    | some next => g.adj.set e.1 (next ++ [e.2])
    | none => g.adj

def graph (vertices : List α) (edges : List (α × α)) : Graph α :=
  edges.foldl Graph.addEdge (vertices.foldl Graph.addVertex ⟨∅, ∅⟩)

structure Search (α : Type*) where
  inDegree : OrderedMap α Int
  queue : List α
  sorted : List α

def Graph.start (g : Graph α) : Search α where
  inDegree := g.inDegree
  queue := (g.inDegree.entries.filter fun e => e.2 = 0).map Prod.fst
  sorted := []

/-- A dependency of `next` has been sorted. -/
def release (s : Search α) (next : α) : Search α :=
  let newDeg := (s.inDegree.get? next).getD 1 - 1
  { s with
    inDegree := s.inDegree.set next newDeg
    queue := if newDeg = 0 then s.queue ++ [next] else s.queue }

/-- One round of the loop; an empty queue ends it. -/
def step (adj : OrderedMap α (List α)) (s : Search α) : Search α :=
  match s.queue with
  | [] => s
  | id :: queue =>
    ((adj.get? id).getD []).foldl release { s with queue, sorted := s.sorted ++ [id] }

/-- The vertices in the order in which the loop takes them from the queue. It takes each at most
once, so it ends within as many rounds as there are vertices. -/
def search (vertices : List α) (edges : List (α × α)) : Search α :=
  let g := graph vertices edges
  (step g.adj)^[vertices.length] g.start

def order (vertices : List α) (edges : List (α × α)) : List α := (search vertices edges).sorted

/-! ### The graph -/

/-- The targets of the edges from `d`, with repetitions. -/
def targets (edges : List (α × α)) (d : α) : List α := (edges.filter fun e => e.1 = d).map Prod.snd

/-- The number of dependencies of `n` that are not in `done`. -/
def pending (edges : List (α × α)) (done : List α) (n : α) : Nat :=
  edges.countP fun e => e.2 = n ∧ e.1 ∉ done

/-- The graph of the given vertices and edges. -/
structure Built (vertices : List α) (edges : List (α × α)) (g : Graph α) : Prop where
  inDegree : ∀ n, g.inDegree.get? n = if n ∈ vertices then some (pending edges [] n : Int) else none
  adj : ∀ n, g.adj.get? n = if n ∈ vertices then some (targets edges n) else none

variable {vertices : List α} {edges : List (α × α)} {g : Graph α} {s : Search α}

theorem built_addVertices (vertices : List α) :
    Built vertices [] (vertices.foldl Graph.addVertex ⟨∅, ∅⟩) := by
  suffices h : ∀ (vertices' : List α) (g : Graph α), Built vertices' [] g →
      Built (vertices' ++ vertices) [] (vertices.foldl Graph.addVertex g) from
    h [] _ ⟨fun _ => rfl, fun _ => rfl⟩
  induction vertices with
  | nil => intro vertices' g hg; rwa [List.append_nil]
  | cons v vertices ih =>
    intro vertices' g hg
    have hv : Built (vertices' ++ [v]) [] (g.addVertex v) := by
      constructor <;> intro n
      · rcases eq_or_ne v n with rfl | hn
        · simp [Graph.addVertex, pending]
        · simp [Graph.addVertex, OrderedMap.get?_set_of_ne _ hn, hg.inDegree, hn.symm]
      · rcases eq_or_ne v n with rfl | hn
        · simp [Graph.addVertex, targets]
        · simp [Graph.addVertex, OrderedMap.get?_set_of_ne _ hn, hg.adj, hn.symm]
    rw [List.append_cons]
    exact ih _ _ hv

theorem Built.addEdge (hg : Built vertices edges g) {e : α × α} (he : e.2 ∈ vertices) :
    Built vertices (edges ++ [e]) (g.addEdge e) := by
  obtain ⟨d, m⟩ := e
  constructor <;> intro n
  · rcases eq_or_ne m n with rfl | hn
    · simp [Graph.addEdge, hg.inDegree, show m ∈ vertices from he, pending]
    · simp [Graph.addEdge, OrderedMap.get?_set_of_ne _ hn, hg.inDegree, pending, hn]
  · rw [Graph.addEdge]
    dsimp only
    rw [hg.adj d]
    by_cases hd : d ∈ vertices
    · rw [if_pos hd]
      rcases eq_or_ne d n with rfl | hn
      · simp [hd, targets]
      · simp [OrderedMap.get?_set_of_ne _ hn, hg.adj, targets, hn]
    · rw [if_neg hd]
      have hn : n ∈ vertices → d ≠ n := fun hn h => hd (h ▸ hn)
      simp only [hg.adj]
      split
      · next h => simp [targets, hn h]
      · rfl

theorem built_graph (h : ∀ e ∈ edges, e.2 ∈ vertices) :
    Built vertices edges (graph vertices edges) := by
  suffices hs : ∀ (edges' : List (α × α)) (g : Graph α), Built vertices edges' g →
      Built vertices (edges' ++ edges) (edges.foldl Graph.addEdge g) from
    hs [] _ (built_addVertices vertices)
  induction edges with
  | nil => intro edges' g hg; rwa [List.append_nil]
  | cons e edges ih =>
    intro edges' g hg
    rw [List.append_cons]
    exact ih (fun e' he' => h e' (.tail _ he')) _ _ (hg.addEdge (h e (.head _)))

/-! ### The search -/

variable (edges) in
theorem pending_append_singleton {done : List α} {d : α} (hd : d ∉ done) (n : α) :
    pending edges done n = pending edges (done ++ [d]) n + (targets edges d).count n := by
  induction edges with
  | nil => rfl
  | cons e edges ih =>
    obtain ⟨a, b⟩ := e
    simp only [pending, targets, List.countP_cons, List.filter_cons] at ih ⊢
    rw [ih]
    rcases eq_or_ne a d with rfl | ha
    · by_cases hb : b = n
      · simp [hb, hd]; omega
      · simp [hb]
    · by_cases hb : b = n
      · simp [hb, ha]; omega
      · simp [hb, ha]

/-- Every dependency of a vertex precedes it. -/
def Closed (edges : List (α × α)) (l : List α) : Prop :=
  ∀ done n rest, l = done ++ n :: rest → ∀ d, (d, n) ∈ edges → d ∈ done

omit [DecidableEq α] in
theorem Closed.snoc {l : List α} {n : α} (hl : Closed edges l)
    (hn : ∀ d, (d, n) ∈ edges → d ∈ l) : Closed edges (l ++ [n]) := by
  intro done m rest h d hd
  rcases List.eq_nil_or_concat rest with rfl | ⟨rest, x, rfl⟩
  · obtain ⟨rfl, hm⟩ := List.append_inj' h rfl
    rw [List.singleton_inj.mp hm] at hn
    exact hn d hd
  · rw [List.concat_eq_append, ← List.cons_append, ← List.append_assoc] at h
    exact hl done m rest (List.append_inj' h rfl).1 d hd

/-- What is sorted and what is queued are the vertices without a pending dependency, once each. -/
structure Invariant (vertices : List α) (edges : List (α × α)) (s : Search α) : Prop where
  nodup : (s.sorted ++ s.queue).Nodup
  mem_iff : ∀ n, n ∈ s.sorted ++ s.queue ↔ n ∈ vertices ∧ pending edges s.sorted n = 0
  inDegree : ∀ n ∈ vertices, s.inDegree.get? n = some (pending edges s.sorted n : Int)
  closed : Closed edges s.sorted

theorem start_invariant (hg : Built vertices edges g) : Invariant vertices edges g.start where
  nodup := by
    rw [Graph.start, List.nil_append]
    exact g.inDegree.nodup.sublist (List.filter_sublist.map _)
  mem_iff n := by
    have hmem : n ∈ g.start.queue ↔ g.inDegree.get? n = some 0 := by
      simp [Graph.start, OrderedMap.mem_entries_iff]
    rw [show g.start.sorted = [] from rfl, List.nil_append, hmem, hg.inDegree]
    split
    · next h => simp [h]
    · next h => simp [h]
  inDegree n hn := (hg.inDegree n).trans (if_pos hn)
  closed := by
    intro done n rest h
    cases done <;> cases h

/-- Releasing the vertices of `ts` one after the other queues those whose last dependency it is. -/
theorem foldl_release (ts : List α) (hts : ∀ n ∈ ts, n ∈ vertices) (degree : α → Nat)
    (s : Search α) (hs : ∀ n ∈ vertices, s.inDegree.get? n = some (degree n + ts.count n : Int)) :
    ∃ new : List α, new.Nodup ∧ (∀ n, n ∈ new ↔ n ∈ ts ∧ degree n = 0) ∧
      (ts.foldl release s).sorted = s.sorted ∧ (ts.foldl release s).queue = s.queue ++ new ∧
      ∀ n ∈ vertices, (ts.foldl release s).inDegree.get? n = some (degree n : Int) := by
  induction ts generalizing s with
  | nil => exact ⟨[], List.nodup_nil, by simp, rfl, (List.append_nil _).symm, by simpa using hs⟩
  | cons t ts ih =>
    have hdeg : (s.inDegree.get? t).getD 1 - 1 = (degree t + ts.count t : Int) := by
      rw [hs t (hts t (.head _)), Option.getD_some, List.count_cons_self]
      omega
    have hrelease (n : α) (hn : n ∈ vertices) :
        (release s t).inDegree.get? n = some (degree n + ts.count n : Int) := by
      rw [release]
      dsimp only
      rw [OrderedMap.get?_set, hdeg]
      split
      · next h => rw [h]
      · next h => rw [hs n hn, List.count_cons_of_ne h]
    obtain ⟨new, hnodup, hnew, hsorted, hqueue, hinDegree⟩ :=
      ih (fun n hn => hts n (.tail _ hn)) (release s t) hrelease
    have hzero : (degree t + ts.count t : Int) = 0 ↔ degree t = 0 ∧ t ∉ ts := by
      rw [← List.count_eq_zero]; omega
    by_cases ht : degree t = 0 ∧ t ∉ ts
    · refine ⟨t :: new, ?_, fun n => ?_, hsorted, ?_, hinDegree⟩
      · exact List.nodup_cons.mpr ⟨fun h => ht.2 ((hnew t).mp h).1, hnodup⟩
      · rw [List.mem_cons, hnew, List.mem_cons]
        constructor
        · rintro (rfl | h)
          exacts [⟨.inl rfl, ht.1⟩, ⟨.inr h.1, h.2⟩]
        · rintro ⟨rfl | h, h0⟩
          exacts [.inl rfl, .inr ⟨h, h0⟩]
      · rw [List.foldl_cons, hqueue, release, hdeg]
        simp [hzero.mpr ht]
    · refine ⟨new, hnodup, fun n => ?_, hsorted, ?_, hinDegree⟩
      · rw [hnew, List.mem_cons]
        refine and_congr_left fun h0 => ⟨.inr, ?_⟩
        rintro (rfl | h)
        exacts [by_contra fun hn => ht ⟨h0, hn⟩, h]
      · rw [List.foldl_cons, hqueue, release, hdeg]
        simp [mt hzero.mp ht]

theorem step_invariant (hg : Built vertices edges g) (hedges : ∀ e ∈ edges, e.2 ∈ vertices)
    (hs : Invariant vertices edges s) : Invariant vertices edges (step g.adj s) := by
  obtain ⟨hnodup, hmem, hdeg, hclosed⟩ := hs
  rw [step]
  split
  · exact ⟨hnodup, hmem, hdeg, hclosed⟩
  next id queue hqueue =>
  rw [hqueue] at hnodup hmem
  have hid : id ∈ vertices ∧ pending edges s.sorted id = 0 := (hmem id).mp (by simp)
  have hout : id ∉ s.sorted := fun h =>
    (List.nodup_append.mp hnodup).2.2 id h id (.head _) rfl
  have hpending := pending_append_singleton edges hout
  rw [hg.adj id, if_pos hid.1, Option.getD_some]
  have htargets (n : α) (hn : n ∈ targets edges id) : n ∈ vertices := by
    obtain ⟨e, he, rfl⟩ := List.mem_map.mp hn
    exact hedges e (List.mem_filter.mp he).1
  obtain ⟨new, hnew, hmemNew, hsorted, hqueue', hdeg'⟩ :=
    foldl_release (targets edges id) htargets (pending edges (s.sorted ++ [id]))
      { s with queue, sorted := s.sorted ++ [id] }
      fun n hn => by rw [hdeg n hn, hpending n]; push_cast; rfl
  generalize (targets edges id).foldl release _ = s' at hsorted hqueue' hdeg' ⊢
  have hlist : s'.sorted ++ s'.queue = s.sorted ++ id :: queue ++ new := by
    rw [hsorted, hqueue']
    simp
  refine ⟨?_, fun n => ?_, ?_, ?_⟩
  · rw [hlist]
    refine List.nodup_append.mpr ⟨hnodup, hnew, ?_⟩
    rintro n hn _ hn' rfl
    have hzero := ((hmem n).mp hn).2
    have hcount := List.count_pos_iff.mpr ((hmemNew n).mp hn').1
    have := hpending n
    omega
  · rw [hlist, hsorted, List.mem_append, hmem, hmemNew]
    dsimp only
    have hsum := hpending n
    constructor
    · rintro (⟨hn, h0⟩ | ⟨hn, h0⟩)
      · exact ⟨hn, by omega⟩
      · exact ⟨htargets n hn, h0⟩
    · rintro ⟨hn, h0⟩
      by_cases ht : n ∈ targets edges id
      · exact .inr ⟨ht, h0⟩
      · have hcount := List.count_eq_zero.mpr ht
        exact .inl ⟨hn, by omega⟩
  · rw [hsorted]; exact hdeg'
  · rw [hsorted]
    refine hclosed.snoc fun d hd => ?_
    by_contra hd'
    have hpos : 0 < pending edges s.sorted id :=
      List.countP_pos_iff.mpr ⟨(d, id), hd, by simpa using hd'⟩
    omega

theorem iterate_invariant (hg : Built vertices edges g) (hedges : ∀ e ∈ edges, e.2 ∈ vertices)
    (rounds : Nat) : Invariant vertices edges ((step g.adj)^[rounds] g.start) := by
  induction rounds with
  | zero => exact start_invariant hg
  | succ rounds ih =>
    rw [Function.iterate_succ_apply']
    exact step_invariant hg hedges ih

theorem search_invariant (hedges : ∀ e ∈ edges, e.2 ∈ vertices) :
    Invariant vertices edges (search vertices edges) :=
  iterate_invariant (built_graph hedges) hedges _

/-! ### The result -/

theorem nodup_order (hedges : ∀ e ∈ edges, e.2 ∈ vertices) : (order vertices edges).Nodup :=
  (search_invariant hedges).nodup.of_append_left

theorem order_subset (hedges : ∀ e ∈ edges, e.2 ∈ vertices) : order vertices edges ⊆ vertices :=
  fun n hn => (((search_invariant hedges).mem_iff n).mp (List.mem_append_left _ hn)).1

theorem closed_order (hedges : ∀ e ∈ edges, e.2 ∈ vertices) :
    Closed edges (order vertices edges) := (search_invariant hedges).closed

theorem foldl_release_sorted (ts : List α) (s : Search α) :
    (ts.foldl release s).sorted = s.sorted := by
  induction ts generalizing s with
  | nil => rfl
  | cons t ts ih => exact ih (release s t)

/-- Each round sorts a vertex, until the queue is empty. -/
theorem iterate_step (adj : OrderedMap α (List α)) (s : Search α) (rounds : Nat) :
    ((step adj)^[rounds] s).queue = [] ∨
      ((step adj)^[rounds] s).sorted.length = s.sorted.length + rounds := by
  induction rounds with
  | zero => exact .inr rfl
  | succ rounds ih =>
    rw [Function.iterate_succ_apply']
    generalize (step adj)^[rounds] s = s' at ih
    rw [step]
    split
    · next h => exact .inl h
    · next h =>
      refine .inr ?_
      rw [foldl_release_sorted, List.length_append, ih.resolve_left (by rw [h]; nofun)]
      rfl

/-- The loop has ended. -/
theorem search_queue (hedges : ∀ e ∈ edges, e.2 ∈ vertices) :
    (search vertices edges).queue = [] := by
  have hs := search_invariant hedges
  refine (iterate_step (graph vertices edges).adj _ vertices.length).elim id fun hlen => ?_
  have hle : (search vertices edges).sorted.length + (search vertices edges).queue.length ≤
      vertices.length := by
    rw [← List.length_append]
    exact (hs.nodup.subperm fun n hn => ((hs.mem_iff n).mp hn).1).length_le
  have hlen : (search vertices edges).sorted.length = 0 + vertices.length := hlen
  exact List.eq_nil_of_length_eq_zero (by omega)

/-! ### Cycles -/

/-- No vertex depends on itself, directly or through others. -/
def Acyclic (edges : List (α × α)) : Prop :=
  ∀ n, ¬ Relation.TransGen (fun d m => (d, m) ∈ edges) n n

/-- A dependency stands earlier in a closed list. -/
theorem Closed.idxOf_lt {l : List α} (hl : Closed edges l) (hnodup : l.Nodup) {d n : α}
    (hn : n ∈ l) (he : (d, n) ∈ edges) : d ∈ l ∧ l.idxOf d < l.idxOf n := by
  obtain ⟨done, rest, rfl⟩ := List.append_of_mem hn
  have hd : d ∈ done := hl done n rest rfl d he
  have hn' : n ∉ done := fun h => (List.nodup_append.mp hnodup).2.2 n h n (.head _) rfl
  refine ⟨List.mem_append_left _ hd, ?_⟩
  rw [List.idxOf_append_of_mem hd, List.idxOf_append_of_notMem hn']
  exact Nat.lt_add_right _ (List.idxOf_lt_length_of_mem hd)

/-- A closed list with the targets of all edges shows that there is no cycle. -/
theorem Closed.acyclic {l : List α} (hl : Closed edges l) (hnodup : l.Nodup)
    (htargets : ∀ e ∈ edges, e.2 ∈ l) : Acyclic edges := by
  intro n hcycle
  have hlt : ∀ m, Relation.TransGen (fun d m => (d, m) ∈ edges) n m → l.idxOf n < l.idxOf m := by
    intro m hm
    induction hm with
    | single he => exact (hl.idxOf_lt hnodup (htargets _ he) he).2
    | tail _ he ih => exact ih.trans (hl.idxOf_lt hnodup (htargets _ he) he).2
  exact absurd (hlt n hcycle) (lt_irrefl _)

/-- What the loop leaves unsorted has an unsorted dependency. -/
theorem exists_pending (htargets : ∀ e ∈ edges, e.2 ∈ vertices) {n : α} (hn : n ∈ vertices)
    (hout : n ∉ order vertices edges) : ∃ d, (d, n) ∈ edges ∧ d ∉ order vertices edges := by
  have hmem := (search_invariant htargets).mem_iff n
  rw [search_queue htargets, List.append_nil] at hmem
  have hpos : 0 < pending edges (order vertices edges) n :=
    Nat.pos_of_ne_zero fun h0 => hout (hmem.mpr ⟨hn, h0⟩)
  obtain ⟨⟨d, m⟩, he, hdm⟩ := List.countP_pos_iff.mp hpos
  obtain ⟨rfl, hd⟩ : m = n ∧ d ∉ order vertices edges := by simpa using hdm
  exact ⟨d, he, hd⟩

/-- Without a cycle every vertex is sorted: by induction along the edges, which is well founded on
the finitely many vertices. -/
theorem mem_order (hsources : ∀ e ∈ edges, e.1 ∈ vertices) (htargets : ∀ e ∈ edges, e.2 ∈ vertices)
    (hacyclic : Acyclic edges) : ∀ n ∈ vertices, n ∈ order vertices edges := by
  have : Std.Irrefl (Relation.TransGen fun d m => (d, m) ∈ edges) := ⟨hacyclic⟩
  have : IsStrictOrder α (Relation.TransGen fun d m => (d, m) ∈ edges) := {}
  have hwf : ({n | n ∈ vertices} : Set α).WellFoundedOn
      (Relation.TransGen fun d m => (d, m) ∈ edges) :=
    (List.finite_toSet vertices).wellFoundedOn
  intro n hn
  refine hwf.induction hn fun n hn ih => ?_
  by_contra hout
  obtain ⟨d, he, hd⟩ := exists_pending htargets hn hout
  exact hd (ih d (hsources _ he) (.single he))

end KirkForge.Kahn
