import KirkForge.Theory.Lists
import Mathlib.Algebra.BigOperators.Group.List.Basic

/-!
# Runs of a deterministic machine

A machine is a function `step : σ → ι → σ` from a state and an input to the next state; its runs
are indexed by the list of inputs they consume. `AllSteps` says that every step of a run is taken
under a side condition, `AllStates` that a property holds of every state the run goes through, the
first and the last included. The rules below turn a fact about one step into a fact about runs.

A pool is a machine made of processes that share a state: they are started at any time and each of
them moves on its own. Its rules turn a fact about one move into one about a step of the pool.
-/

namespace KirkForge.Run

variable {σ ι : Type*} {step : σ → ι → σ} {ok : σ → ι → Prop} {I P : σ → Prop}

/-- The state reached from `s` by consuming the inputs in order. -/
def run (step : σ → ι → σ) (s : σ) (is : List ι) : σ := is.foldl step s

/-- Each step of the run from `s` satisfies `ok` in the state in which it is taken. -/
def AllSteps (step : σ → ι → σ) (ok : σ → ι → Prop) : σ → List ι → Prop
  | _, [] => True
  | s, i :: is => ok s i ∧ AllSteps step ok (step s i) is

/-- Each state of the run from `s` satisfies `P`. -/
def AllStates (step : σ → ι → σ) (P : σ → Prop) : σ → List ι → Prop
  | s, [] => P s
  | s, i :: is => P s ∧ AllStates step P (step s i) is

theorem run_cons (s : σ) (i : ι) (is : List ι) :
    run step s (i :: is) = run step (step s i) is := rfl

/-- An invariant kept by every step holds at the end of a run. -/
theorem run_invariant (hstep : ∀ s i, I s → I (step s i)) {s : σ} (is : List ι) (hs : I s) :
    I (run step s is) := by
  induction is generalizing s with
  | nil => exact hs
  | cons i is ih => exact ih (hstep s i hs)

/-- An invariant kept by every step taken under the side condition holds throughout a run. -/
theorem allStates_of_invariant (hstep : ∀ s i, I s → ok s i → I (step s i)) {s : σ} {is : List ι}
    (hs : I s) (his : AllSteps step ok s is) : AllStates step I s is := by
  induction is generalizing s with
  | nil => exact hs
  | cons i is ih => exact ⟨hs, ih (hstep s i hs his.1) his.2⟩

/-- An invariant kept by every step holds throughout every run. -/
theorem allStates_of_forall (hstep : ∀ s i, I s → I (step s i)) {s : σ} {is : List ι} (hs : I s) :
    AllStates step I s is := by
  induction is generalizing s with
  | nil => exact hs
  | cons i is ih => exact ⟨hs, ih (hstep s i hs)⟩

/-- A condition that an invariant implies holds of every step of every run. -/
theorem allSteps_of_forall (hstep : ∀ s i, I s → I (step s i)) (hok : ∀ s i, I s → ok s i) {s : σ}
    {is : List ι} (hs : I s) : AllSteps step ok s is := by
  induction is generalizing s with
  | nil => trivial
  | cons i is ih => exact ⟨hok s i hs, ih (hstep s i hs)⟩

/-- A condition on the inputs alone. -/
theorem allSteps_of_mem {ok : ι → Prop} {s : σ} {is : List ι} (h : ∀ i ∈ is, ok i) :
    AllSteps step (fun _ => ok) s is := by
  induction is generalizing s with
  | nil => trivial
  | cons i is ih =>
    obtain ⟨hi, his⟩ := List.forall_mem_cons.mp h
    exact ⟨hi, ih his⟩

/-- A side condition that an invariant strengthens may be strengthened along a run. -/
theorem AllSteps.mono {ok' : σ → ι → Prop} (hstep : ∀ s i, I s → I (step s i))
    (hok : ∀ s i, I s → ok s i → ok' s i) {s : σ} {is : List ι} (hs : I s)
    (h : AllSteps step ok s is) : AllSteps step ok' s is := by
  induction is generalizing s with
  | nil => trivial
  | cons i is ih => exact ⟨hok s i hs h.1, ih (hstep s i hs) h.2⟩

/-- A side condition may use what is known of the inputs. -/
theorem AllSteps.imp {ok' : σ → ι → Prop} {s : σ} {is : List ι} (h : AllSteps step ok s is)
    (hok : ∀ s, ∀ i ∈ is, ok s i → ok' s i) : AllSteps step ok' s is := by
  induction is generalizing s with
  | nil => trivial
  | cons i is ih =>
    exact ⟨hok s i List.mem_cons_self h.1,
      ih h.2 fun s j hj => hok s j (List.mem_cons_of_mem i hj)⟩

theorem AllSteps.and {ok' : σ → ι → Prop} {s : σ} {is : List ι} (h : AllSteps step ok s is)
    (h' : AllSteps step ok' s is) : AllSteps step (fun s i => ok s i ∧ ok' s i) s is := by
  induction is generalizing s with
  | nil => trivial
  | cons i is ih => exact ⟨⟨h.1, h'.1⟩, ih h.2 h'.2⟩

theorem AllStates.mono (hPQ : ∀ s, I s → P s) {s : σ} {is : List ι}
    (h : AllStates step I s is) : AllStates step P s is := by
  induction is generalizing s with
  | nil => exact hPQ s h
  | cons i is ih => exact ⟨hPQ s h.1, ih h.2⟩

theorem AllStates.head {s : σ} {is : List ι} (h : AllStates step P s is) : P s := by
  cases is with
  | nil => exact h
  | cons i is => exact h.1

theorem AllStates.last {s : σ} {is : List ι} (h : AllStates step P s is) : P (run step s is) := by
  induction is generalizing s with
  | nil => exact h
  | cons i is ih => exact ih h.2

/-- If leaving the side condition breaks `P` at once, a run that keeps `P` keeps the condition. -/
theorem allSteps_of_allStates (hstep : ∀ s i, I s → ok s i → I (step s i))
    (hbreak : ∀ s i, I s → P (step s i) → ok s i) {s : σ} {is : List ι} (hs : I s)
    (h : AllStates step P s is) : AllSteps step ok s is := by
  induction is generalizing s with
  | nil => trivial
  | cons i is ih =>
    have hok := hbreak s i hs h.2.head
    exact ⟨hok, ih (hstep s i hs hok) h.2⟩

end KirkForge.Run

/-! ### Pools of processes -/

namespace KirkForge

/-- What changes the shared state from outside, starts a process and moves one. -/
structure Processes (σ π ε ν ι : Type*) where
  outside : σ → ε → σ
  start : σ → ν → π
  move : σ → π → ι → σ × π

/-- The processes in the order in which they were started. -/
structure Processes.Pool (σ π : Type*) where
  shared : σ
  procs : List π

inductive Processes.Input (ε ν ι : Type*)
  | outside (e : ε)
  | start (v : ν)
  | move (k : Nat) (i : ι)

namespace Processes

variable {σ π ε ν ι : Type*} (m : Processes σ π ε ν ι)

def step (p : Pool σ π) : Input ε ν ι → Pool σ π
  | .outside e => { p with shared := m.outside p.shared e }
  | .start v => { p with procs := p.procs ++ [m.start p.shared v] }
  | .move k i =>
    match p.procs[k]? with
    | none => p
    | some c => ⟨(m.move p.shared c i).1, p.procs.set k (m.move p.shared c i).2⟩

variable {m} {p : Pool σ π} {input : Input ε ν ι} {k : Nat} {i : ι} {c : π}

theorem step_move (hc : p.procs[k]? = some c) : m.step p (.move k i) =
    ⟨(m.move p.shared c i).1, p.procs.set k (m.move p.shared c i).2⟩ := by
  simp only [step, hc]

theorem step_move_none (hk : p.procs[k]? = none) : m.step p (.move k i) = p := by
  simp only [step, hk]

theorem set_front_length (front back : List π) (c c' : π) :
    (front ++ c :: back).set front.length c' = front ++ c' :: back := by
  rw [List.set_append_right _ _ (Nat.le_refl _), Nat.sub_self, List.set_cons_zero]

/-- What holds of a process when it starts and through each of its own moves holds of all. -/
theorem step_all {J : π → Prop} (hstart : ∀ v, J (m.start p.shared v))
    (hmove : ∀ k i, input = .move k i → ∀ c, J c → J (m.move p.shared c i).2)
    (h : ∀ c ∈ p.procs, J c) : ∀ c ∈ (m.step p input).procs, J c := by
  cases input with
  | outside e => exact h
  | start v => exact List.forall_mem_append.mpr ⟨h, List.forall_mem_singleton.mpr (hstart v)⟩
  | move k i =>
    cases hc : p.procs[k]? with
    | none =>
      rw [step_move_none hc]
      exact h
    | some c =>
      rw [step_move hc]
      intro c' hc'
      obtain hc' | rfl := List.mem_or_eq_of_mem_set hc'
      · exact h c' hc'
      · exact hmove k i rfl c (h c (List.mem_of_getElem? hc))

/-- What holds of the shared state is kept where every change of it keeps it. -/
theorem step_shared {J : σ → Prop} (houtside : ∀ e, input = .outside e → J (m.outside p.shared e))
    (hmove : ∀ k i, input = .move k i → ∀ c ∈ p.procs, J (m.move p.shared c i).1)
    (h : J p.shared) : J (m.step p input).shared := by
  cases input with
  | outside e => exact houtside e rfl
  | start v => exact h
  | move k i =>
    cases hc : p.procs[k]? with
    | none =>
      rw [step_move_none hc]
      exact h
    | some c =>
      rw [step_move hc]
      exact hmove k i rfl c (List.mem_of_getElem? hc)

/-- What a change from outside adds to a quantity. -/
def Input.weight {M : Type*} [Zero M] (w : ε → M) : Input ε ν ι → M
  | .outside e => w e
  | .start _ | .move _ _ => 0

theorem Input.weight_zero {M : Type*} [Zero M] (input : Input ε ν ι) :
    input.weight (fun _ => (0 : M)) = 0 := by
  cases input <;> rfl

/-- A quantity of the shared state is what it was, with what comes from outside and what the
processes contribute. -/
theorem step_sum {M : Type*} [AddCancelCommMonoid M] {f : σ → M} {g : π → M} {w : ε → M} {n : M}
    (houtside : ∀ e, f (m.outside p.shared e) = f p.shared + w e)
    (hstart : ∀ v, g (m.start p.shared v) = 0)
    (hmove : ∀ c ∈ p.procs, ∀ i,
      f (m.move p.shared c i).1 + g c = f p.shared + g (m.move p.shared c i).2)
    (h : f p.shared = n + (p.procs.map g).sum) :
    f (m.step p input).shared = n + input.weight w + ((m.step p input).procs.map g).sum := by
  cases input with
  | outside e =>
    rw [step, Input.weight, houtside, h]
    exact add_right_comm _ _ _
  | start v =>
    simp only [step, Input.weight, List.map_append, List.sum_append, List.map_singleton,
      List.sum_singleton, hstart, add_zero, h]
  | move k i =>
    rw [Input.weight, add_zero]
    cases hc : p.procs[k]? with
    | none =>
      rw [step_move_none hc]
      exact h
    | some c =>
      have hone := hmove c (List.mem_of_getElem? hc) i
      obtain ⟨front, back, hprocs, rfl⟩ := Lists.exists_split hc
      rw [step_move hc]
      simp only [hprocs, set_front_length, List.map_append, List.map_cons, List.sum_append,
        List.sum_cons] at h ⊢
      apply add_right_cancel (b := g c)
      rw [hone, h]
      ac_rfl

/-- Over a run, too, as long as an invariant holds that the step lemma needs. -/
theorem run_sum {M : Type*} [AddCancelCommMonoid M] {f : σ → M} {g : π → M} {w : ε → M} {n : M}
    {I : Pool σ π → Prop} (hinv : ∀ p input, I p → I (m.step p input))
    (houtside : ∀ p, I p → ∀ e, f (m.outside p.shared e) = f p.shared + w e)
    (hstart : ∀ s v, g (m.start s v) = 0)
    (hmove : ∀ p, I p → ∀ c ∈ p.procs, ∀ i,
      f (m.move p.shared c i).1 + g c = f p.shared + g (m.move p.shared c i).2)
    {p : Pool σ π} (hp : I p) (h : f p.shared = n + (p.procs.map g).sum)
    (inputs : List (Input ε ν ι)) :
    f (Run.run m.step p inputs).shared =
      n + (inputs.map (Input.weight w)).sum + ((Run.run m.step p inputs).procs.map g).sum := by
  induction inputs generalizing p n with
  | nil =>
    rw [List.map_nil, List.sum_nil, add_zero]
    exact h
  | cons input inputs ih =>
    rw [Run.run_cons, List.map_cons, List.sum_cons, ← add_assoc]
    apply ih (hinv p input hp)
    exact step_sum (houtside p hp) (hstart p.shared) (hmove p hp) h

/-- Of each place in the shared state, its value is the first one or one that a process accounts
for. -/
def Accounted {κ α : Type*} (value : σ → κ → α) (R : π → κ → α → Prop) (first : κ → α)
    (p : Pool σ π) : Prop :=
  ∀ x, value p.shared x = first x ∨ ∃ c ∈ p.procs, R c x (value p.shared x)

theorem step_accounted {κ α : Type*} {value : σ → κ → α} {R : π → κ → α → Prop} {first : κ → α}
    (houtside : ∀ s e x, value (m.outside s e) x = value s x)
    (hkeep : ∀ c ∈ p.procs, ∀ i x a, R c x a → R (m.move p.shared c i).2 x a)
    (hmove : ∀ k i c, input = .move k i → p.procs[k]? = some c → ∀ x,
      value (m.move p.shared c i).1 x = value p.shared x ∨
        R (m.move p.shared c i).2 x (value (m.move p.shared c i).1 x))
    (h : Accounted value R first p) : Accounted value R first (m.step p input) := by
  intro x
  cases input with
  | outside e =>
    simp only [step, houtside]
    exact h x
  | start v =>
    refine (h x).imp_right fun ⟨c, hc, hr⟩ => ⟨c, List.mem_append_left _ hc, hr⟩
  | move k i =>
    cases hc : p.procs[k]? with
    | none =>
      rw [step_move_none hc]
      exact h x
    | some c =>
      have hone := hmove k i c rfl hc x
      have hkept := hkeep c (List.mem_of_getElem? hc) i x (value p.shared x)
      obtain ⟨front, back, hprocs, rfl⟩ := Lists.exists_split hc
      rw [step_move hc, hprocs, set_front_length]
      obtain hsame | hr := hone
      · rw [hsame]
        refine (h x).imp_right fun ⟨c', hc', hr⟩ => ?_
        rw [hprocs, List.mem_append, List.mem_cons] at hc'
        obtain hc' | rfl | hc' := hc'
        · exact ⟨c', List.mem_append_left _ hc', hr⟩
        · exact ⟨_, List.mem_append_right _ (List.mem_cons_self ..), hkept hr⟩
        · exact ⟨c', List.mem_append_right _ (List.mem_cons_of_mem _ hc'), hr⟩
      · exact .inr ⟨_, List.mem_append_right _ (List.mem_cons_self ..), hr⟩

end Processes

end KirkForge
