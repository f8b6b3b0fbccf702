import KirkForge.Theory.OrderedMap
import KirkForge.Theory.ProbeProtocol
import KirkForge.Theory.Run

/-!
# The circuit breaker

`CircuitBreaker` (`model-client/src/model-client.ts`): a flag, a counter and a time for each key,
changed inside a query. It is compared with the protocol that its half-open state stands for, run
beside it for every key.
-/

namespace KirkForge

open ProbeProtocol

structure CircuitState where
  failures : Nat
  lastFailure : Int
  opened : Bool

structure CircuitBreaker where
  state : OrderedMap String CircuitState := ∅
  threshold : Nat := 5
  resetTimeoutMs : Int := 30000

namespace CircuitBreaker

/-- The answer, and the breaker after the check. -/
def isOpen (key : String) (now : Int) (breaker : CircuitBreaker) : Bool × CircuitBreaker :=
  match breaker.state.get? key with
  | none => (false, breaker)
  | some s =>
    if !s.opened then (false, breaker)
    else if breaker.resetTimeoutMs < now - s.lastFailure then
      -- half-open
      (false, { breaker with
        state := breaker.state.set key { s with opened := false, failures := 0 } })
    else (true, breaker)

def getState (key : String) (breaker : CircuitBreaker) : Bool × Nat :=
  match breaker.state.get? key with
  | none => (false, 0)
  | some s => (s.opened, s.failures)

def recordSuccess (key : String) (breaker : CircuitBreaker) : CircuitBreaker :=
  { breaker with state := breaker.state.delete key }

def recordFailure (key : String) (now : Int) (breaker : CircuitBreaker) : CircuitBreaker :=
  let s := (breaker.state.get? key).getD ⟨0, 0, false⟩
  { breaker with
    state := breaker.state.set key
      { failures := s.failures + 1
        lastFailure := now
        opened := breaker.threshold ≤ s.failures + 1 || s.opened } }

end CircuitBreaker

/-! ### A breaker in use -/

/-- What is done for one of the keys. -/
structure CircuitInput where
  key : String
  input : Input

/-- A breaker, and beside it the phase that the protocol has for each key. -/
structure Circuit where
  breaker : CircuitBreaker
  phase : String → Phase := fun _ => .closed 0

namespace Circuit

/-- What a call on the breaker makes of it. -/
def act (breaker : CircuitBreaker) (i : CircuitInput) : CircuitBreaker :=
  match i.input with
  | .check now => (breaker.isOpen i.key now).2
  | .success => breaker.recordSuccess i.key
  | .failure now => breaker.recordFailure i.key now

def step (s : Circuit) (i : CircuitInput) : Circuit where
  breaker := act s.breaker i
  phase := Function.update s.phase i.key
    ((s.phase i.key).next s.breaker.threshold s.breaker.resetTimeoutMs i.input)

/-- A check made now, for any key and at any time, is answered as the protocol has it. -/
def Follows (s : Circuit) : Prop :=
  ∀ key now, (s.breaker.isOpen key now).1 = (s.phase key).blocks s.breaker.resetTimeoutMs now

/-- The input is a check that finds the circuit open after its time. -/
def HalfOpens (s : Circuit) (i : CircuitInput) : Prop :=
  ∃ now state, i.input = .check now ∧ s.breaker.state.get? i.key = some state ∧
    state.opened = true ∧ s.breaker.resetTimeoutMs < now - state.lastFailure

/-! ### One key at a time -/

variable {s : Circuit} {i : CircuitInput} {breaker breaker' : CircuitBreaker} {key : String}

/-- A call changes nothing but the entries. -/
theorem act_eq (breaker : CircuitBreaker) (i : CircuitInput) :
    act breaker i = { breaker with state := (act breaker i).state } := by
  obtain ⟨key, input⟩ := i
  cases input with
  | check now =>
    show (breaker.isOpen key now).2 = { breaker with state := (breaker.isOpen key now).2.state }
    rw [CircuitBreaker.isOpen]
    split
    · rfl
    · split
      · rfl
      · split <;> rfl
  | success | failure => rfl

@[simp] theorem act_resetTimeoutMs (breaker : CircuitBreaker) (i : CircuitInput) :
    (act breaker i).resetTimeoutMs = breaker.resetTimeoutMs := by
  rw [act_eq]

@[simp] theorem act_threshold (breaker : CircuitBreaker) (i : CircuitInput) :
    (act breaker i).threshold = breaker.threshold := by
  rw [act_eq]

/-- What the entry of a key becomes when something is done for that key. -/
def actOn (threshold : Nat) (resetTimeoutMs : Int) (entry : Option CircuitState) :
    Input → Option CircuitState
  | .check now => entry.map fun s =>
    if s.opened = true ∧ resetTimeoutMs < now - s.lastFailure then
      { s with opened := false, failures := 0 }
    else s
  | .success => none
  | .failure now =>
    let s := entry.getD ⟨0, 0, false⟩
    some ⟨s.failures + 1, now, threshold ≤ s.failures + 1 || s.opened⟩

theorem get?_isOpen (breaker : CircuitBreaker) (key : String) (now : Int) :
    (breaker.isOpen key now).2.state.get? key =
      actOn breaker.threshold breaker.resetTimeoutMs (breaker.state.get? key) (.check now) := by
  rw [CircuitBreaker.isOpen]
  cases hget : breaker.state.get? key with
  | none => exact hget
  | some state =>
    obtain ⟨failures, lastFailure, opened⟩ := state
    cases opened with
    | false => simp [actOn, hget]
    | true =>
      by_cases hlate : breaker.resetTimeoutMs < now - lastFailure
      · simp [actOn, hlate]
      · simp [actOn, hlate, hget]

theorem get?_isOpen_of_ne (breaker : CircuitBreaker) {own key : String} (h : own ≠ key)
    (now : Int) : (breaker.isOpen own now).2.state.get? key = breaker.state.get? key := by
  rw [CircuitBreaker.isOpen]
  split
  · rfl
  · split
    · rfl
    · split
      · exact OrderedMap.get?_set_of_ne _ h _
      · rfl

/-- A call changes the entry of its own key, by what that entry is. -/
theorem get?_act (breaker : CircuitBreaker) (i : CircuitInput) (key : String) :
    (act breaker i).state.get? key =
      if i.key = key then
        actOn breaker.threshold breaker.resetTimeoutMs (breaker.state.get? key) i.input
      else breaker.state.get? key := by
  obtain ⟨own, input⟩ := i
  by_cases h : own = key
  · subst h
    rw [if_pos rfl]
    cases input with
    | success => exact (OrderedMap.get?_delete breaker.state own own).trans (if_pos rfl)
    | failure now => exact OrderedMap.get?_set_self breaker.state own _
    | check now => exact get?_isOpen breaker own now
  · rw [if_neg h]
    cases input with
    | success => exact (OrderedMap.get?_delete breaker.state own key).trans (if_neg h)
    | failure now => exact OrderedMap.get?_set_of_ne breaker.state h _
    | check now => exact get?_isOpen_of_ne breaker h now

/-- Two breakers that a key cannot tell apart. -/
structure SameFor (key : String) (breaker breaker' : CircuitBreaker) : Prop where
  threshold : breaker.threshold = breaker'.threshold
  resetTimeoutMs : breaker.resetTimeoutMs = breaker'.resetTimeoutMs
  state : breaker.state.get? key = breaker'.state.get? key

theorem SameFor.act (h : SameFor key breaker breaker') (i : CircuitInput) :
    SameFor key (Circuit.act breaker i) (Circuit.act breaker' i) where
  threshold := by rw [act_threshold, act_threshold, h.threshold]
  resetTimeoutMs := by rw [act_resetTimeoutMs, act_resetTimeoutMs, h.resetTimeoutMs]
  state := by rw [get?_act, get?_act, h.threshold, h.resetTimeoutMs, h.state]

/-- What is done for other keys leaves no trace. -/
theorem SameFor.act_other (h : SameFor key breaker breaker') (hi : i.key ≠ key) :
    SameFor key (Circuit.act breaker i) breaker' where
  threshold := by rw [act_threshold, h.threshold]
  resetTimeoutMs := by rw [act_resetTimeoutMs, h.resetTimeoutMs]
  state := by rw [get?_act, if_neg hi, h.state]

theorem SameFor.run_filter (h : SameFor key breaker breaker') (inputs : List CircuitInput) :
    SameFor key (Run.run Circuit.act breaker inputs)
      (Run.run Circuit.act breaker' (inputs.filter (·.key = key))) := by
  induction inputs generalizing breaker breaker' with
  | nil => exact h
  | cons i inputs ih =>
    by_cases hi : i.key = key
    · rw [List.filter_cons_of_pos (by simpa using hi)]
      exact ih (h.act i)
    · rw [List.filter_cons_of_neg (by simpa using hi)]
      exact ih (h.act_other hi)

theorem SameFor.isOpen (h : SameFor key breaker breaker') (now : Int) :
    (breaker.isOpen key now).1 = (breaker'.isOpen key now).1 := by
  rw [CircuitBreaker.isOpen, CircuitBreaker.isOpen, h.state, h.resetTimeoutMs]
  cases breaker'.state.get? key with
  | none => rfl
  | some s =>
    dsimp only
    split
    · rfl
    · split <;> rfl

/-! ### Following the protocol -/

/-- The entry of a key stands for the phase. -/
def StandsFor : Option CircuitState → Phase → Prop
  | none, .closed failures => failures = 0
  | some s, .closed failures => s.opened = false ∧ s.failures = failures
  | some s, .opened lastFailure => s.opened = true ∧ s.lastFailure = lastFailure
  | _, _ => False

def Inv (s : Circuit) : Prop := ∀ key, StandsFor (s.breaker.state.get? key) (s.phase key)

theorem Inv.follows (h : s.Inv) : s.Follows := by
  intro key now
  have hkey := h key
  rw [CircuitBreaker.isOpen]
  cases hget : s.breaker.state.get? key with
  | none =>
    cases hphase : s.phase key with
    | closed failures => rfl
    | opened | probing =>
      rw [hget, hphase] at hkey
      exact hkey.elim
  | some state =>
    rw [hget] at hkey
    cases hphase : s.phase key with
    | closed failures =>
      rw [hphase] at hkey
      simp [hkey.1, Phase.blocks]
    | opened lastFailure =>
      rw [hphase] at hkey
      simp only [hkey.1, hkey.2, Bool.not_true, Bool.false_eq_true, if_false, Phase.blocks]
      split
      · next hlate => exact (decide_eq_false (Int.not_le.mpr hlate)).symm
      · next hearly => exact (decide_eq_true (Int.not_lt.mp hearly)).symm
    | probing =>
      rw [hphase] at hkey
      exact hkey.elim

theorem StandsFor.actOn {threshold : Nat} {resetTimeoutMs : Int} {entry : Option CircuitState}
    {phase : Phase} (h : StandsFor entry phase) (input : Input)
    (hhalf : ∀ now state, input = .check now → entry = some state → state.opened = true →
      ¬resetTimeoutMs < now - state.lastFailure) :
    StandsFor (Circuit.actOn threshold resetTimeoutMs entry input)
      (phase.next threshold resetTimeoutMs input) := by
  cases input with
  | success => cases phase <;> exact rfl
  | failure now =>
    cases phase with
    | closed failures =>
      have hentry : (entry.getD ⟨0, 0, false⟩).failures = failures ∧
          (entry.getD ⟨0, 0, false⟩).opened = false := by
        cases entry with
        | none => exact ⟨Eq.symm h, rfl⟩
        | some s => exact ⟨h.2, h.1⟩
      rw [Phase.next]
      split
      · next hmany => exact ⟨by simp [hentry, hmany], rfl⟩
      · next hfew => exact ⟨by simp [hentry, hfew], congrArg (· + 1) hentry.1⟩
    | opened lastFailure =>
      cases entry with
      | none => exact h.elim
      | some s => exact ⟨by simp [h.1], rfl⟩
    | probing => cases entry <;> exact h.elim
  | check now =>
    cases entry with
    | none =>
      cases phase with
      | closed failures => exact h
      | opened | probing => exact h.elim
    | some s =>
      have hsame : Circuit.actOn threshold resetTimeoutMs (some s) (.check now) = some s := by
        rw [Circuit.actOn, Option.map_some, if_neg fun hlate => hhalf now s rfl rfl hlate.1 hlate.2]
      rw [hsame]
      cases phase with
      | closed failures => exact h
      | opened lastFailure =>
        have hearly := hhalf now s rfl rfl h.1
        rw [h.2, Int.not_lt] at hearly
        rw [Phase.next, if_pos hearly]
        exact h
      | probing => exact h.elim

theorem Inv.step (h : s.Inv) (hi : ¬HalfOpens s i) : (s.step i).Inv := by
  intro key
  show StandsFor ((act s.breaker i).state.get? key) (Function.update s.phase i.key _ key)
  rw [get?_act]
  by_cases hkey : i.key = key
  · subst hkey
    rw [if_pos rfl, Function.update_self]
    refine (h i.key).actOn i.input fun now state hinput hget hopened hlate => ?_
    exact hi ⟨now, state, hinput, hget, hopened, hlate⟩
  · rw [if_neg hkey, Function.update_of_ne (Ne.symm hkey)]
    exact h key

/-- After the probe was let through, so would be the next check. -/
theorem HalfOpens.not_follows (h : s.Inv) (hi : HalfOpens s i) : ¬(s.step i).Follows := by
  obtain ⟨now, state, hinput, hget, hopened, hlate⟩ := hi
  intro hfollows
  have hphase : s.phase i.key = .opened state.lastFailure := by
    have hkey := h i.key
    rw [hget] at hkey
    cases hp : s.phase i.key with
    | closed failures =>
      rw [hp] at hkey
      exact absurd (hkey.1.symm.trans hopened) Bool.false_ne_true
    | opened lastFailure =>
      rw [hp] at hkey
      rw [hkey.2]
    | probing =>
      rw [hp] at hkey
      exact hkey.elim
  have hnext : (s.step i).phase i.key = .probing := by
    show Function.update s.phase i.key _ i.key = _
    rw [Function.update_self, hinput, hphase, Phase.next, if_neg (Int.not_le.mpr hlate)]
  have hentry : (s.step i).breaker.state.get? i.key =
      some { state with opened := false, failures := 0 } := by
    show (act s.breaker i).state.get? i.key = _
    rw [get?_act, if_pos rfl, hinput, hget, actOn, Option.map_some, if_pos ⟨hopened, hlate⟩]
  have hanswer := hfollows i.key now
  rw [hnext, CircuitBreaker.isOpen, hentry] at hanswer
  exact absurd hanswer Bool.false_ne_true

theorem inv_new (threshold : Nat) (resetTimeoutMs : Int) :
    Inv { breaker := { threshold, resetTimeoutMs } } := fun _ => rfl

theorem follows_of_not_halfOpens {threshold : Nat} {resetTimeoutMs : Int}
    {inputs : List CircuitInput}
    (h : Run.AllSteps step (fun s i => ¬HalfOpens s i) { breaker := { threshold, resetTimeoutMs } }
      inputs) :
    Run.AllStates step Follows { breaker := { threshold, resetTimeoutMs } } inputs :=
  (Run.allStates_of_invariant (fun _ _ hs hi => Inv.step hs hi)
    (inv_new threshold resetTimeoutMs) h).mono fun _ hs => hs.follows

theorem run_resetTimeoutMs (s : Circuit) (inputs : List CircuitInput) :
    (Run.run step s inputs).breaker.resetTimeoutMs = s.breaker.resetTimeoutMs ∧
      (Run.run step s inputs).breaker.threshold = s.breaker.threshold := by
  induction inputs generalizing s with
  | nil => exact ⟨rfl, rfl⟩
  | cons i inputs ih =>
    obtain ⟨hreset, hthreshold⟩ := ih (s.step i)
    exact ⟨hreset.trans (act_resetTimeoutMs _ _), hthreshold.trans (act_threshold _ _)⟩

/-- The phase of a key is that of the inputs for the key. -/
theorem run_phase (s : Circuit) (inputs : List CircuitInput) (key : String) :
    (Run.run step s inputs).phase key =
      ((inputs.filter (·.key = key)).map (·.input)).foldl
        (Phase.next s.breaker.threshold s.breaker.resetTimeoutMs) (s.phase key) := by
  induction inputs generalizing s with
  | nil => rfl
  | cons i inputs ih =>
    have hthreshold : (s.step i).breaker.threshold = s.breaker.threshold := act_threshold _ _
    have hreset : (s.step i).breaker.resetTimeoutMs = s.breaker.resetTimeoutMs :=
      act_resetTimeoutMs _ _
    rw [Run.run_cons, ih, hthreshold, hreset]
    by_cases hi : i.key = key
    · subst hi
      rw [List.filter_cons_of_pos (by simp), List.map_cons, List.foldl_cons]
      congr 1
      exact Function.update_self _ _ _
    · rw [List.filter_cons_of_neg (by simpa using hi)]
      congr 1
      exact Function.update_of_ne (Ne.symm hi) _ _

/-- As many failures as the threshold since the last success open the circuit for the time after
the last of them, unless a check has come later than that before. -/
theorem isOpen_after_failures {threshold : Nat} {resetTimeoutMs : Int} {inputs : List CircuitInput}
    (h : Run.AllSteps step (fun s i => ¬HalfOpens s i) { breaker := { threshold, resetTimeoutMs } }
      inputs) {key : String} {tally : Tally}
    (htally : ((inputs.filter (·.key = key)).map (·.input)).foldl Tally.next {} = tally)
    (hpos : 0 < tally.failures) (hmany : threshold ≤ tally.failures) {now : Int}
    (hnow : now - tally.lastFailure ≤ resetTimeoutMs) :
    ((Run.run step { breaker := { threshold, resetTimeoutMs } } inputs).breaker.isOpen key now).1 =
      true := by
  have hfits : Fits threshold tally
      ((Run.run step { breaker := { threshold, resetTimeoutMs } } inputs).phase key) := by
    rw [run_phase, ← htally]
    exact Fits.foldl fits_closed _
  have hreset := (run_resetTimeoutMs { breaker := { threshold, resetTimeoutMs } } inputs).1
  rw [(follows_of_not_halfOpens h).last key now, hreset]
  exact hfits.blocks hpos hmany hnow

/-- Throughout a run every check is answered as the protocol has it, exactly if no check finds a
circuit open after its time; and the answers for a key depend on what was done for that key only. -/
theorem circuitBreaker_protocol_iff (threshold : Nat) (resetTimeoutMs : Int)
    (inputs : List CircuitInput) :
    (Run.AllStates step Follows { breaker := { threshold, resetTimeoutMs } } inputs ↔
      Run.AllSteps step (fun s i => ¬HalfOpens s i) { breaker := { threshold, resetTimeoutMs } }
        inputs) ∧
      ∀ key now,
        ((Run.run act { threshold, resetTimeoutMs } inputs).isOpen key now).1 =
          ((Run.run act { threshold, resetTimeoutMs } (inputs.filter (·.key = key))).isOpen key
            now).1 := by
  have hnew := inv_new threshold resetTimeoutMs
  refine ⟨⟨fun h => ?_, fun h => ?_⟩, fun key now => ?_⟩
  · exact Run.allSteps_of_allStates (fun _ _ hs hi => hs.step hi)
      (fun _ _ hs hfollows hi => hi.not_follows hs hfollows) hnew h
  · exact follows_of_not_halfOpens h
  · have hsame : SameFor key { threshold, resetTimeoutMs } { threshold, resetTimeoutMs } :=
      ⟨rfl, rfl, rfl⟩
    exact (hsame.run_filter inputs).isOpen now

/-- Five failures, and a check after the time: the second such check is let through as well. -/
theorem circuitBreaker_lets_two_probes_through :
    ¬∀ (threshold : Nat) (resetTimeoutMs : Int) (inputs : List CircuitInput),
      Run.AllStates step Follows { breaker := { threshold, resetTimeoutMs } } inputs := by
  intro h
  have hlast := (h 5 30000 (List.replicate 5 ⟨"openai:gpt", .failure 0⟩ ++
    [⟨"openai:gpt", .check 30001⟩])).last "openai:gpt" 30002
  exact absurd hlast (by decide)

end Circuit

end KirkForge
