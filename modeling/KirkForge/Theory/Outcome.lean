import Mathlib.Control.Monad.Basic
import Mathlib.Logic.Basic

/-!
# Computations that succeed

What is known of the parts of a computation in `Except` when the whole of it succeeds.
-/

namespace KirkForge.ExceptRules

variable {ε ε' α β : Type*}

theorem ok_bind {ε : Type u} {α β : Type v} (a : α) (f : α → Except ε β) :
    (Except.ok a >>= f) = f a := rfl

theorem bind_eq_ok {ε : Type u} {α β : Type v} {x : Except ε α} {f : α → Except ε β} {b : β} :
    (x >>= f) = .ok b ↔ ∃ a, x = .ok a ∧ f a = .ok b := by
  cases x with
  | error e => exact ⟨nofun, fun ⟨a, h, _⟩ => nomatch h⟩
  | ok a => exact ⟨fun h => ⟨a, rfl, h⟩, fun ⟨a', ha, h⟩ => by cases ha; exact h⟩

theorem map_eq_ok {x : Except ε α} {f : α → β} {b : β} :
    x.map f = .ok b ↔ ∃ a, x = .ok a ∧ f a = b := by
  cases x with
  | error e => exact ⟨nofun, fun ⟨a, h, _⟩ => nomatch h⟩
  | ok a =>
    constructor
    · intro h
      exact ⟨a, rfl, Except.ok.inj h⟩
    · rintro ⟨a', ha, rfl⟩
      rw [Except.ok.inj ha]
      rfl

/-- A traversal succeeds if and only if every step of it does. -/
theorem exists_mapM_eq_ok {ε : Type u} {α : Type w} {β : Type v} {f : α → Except ε β} {l : List α} :
    (∃ bs, l.mapM f = .ok bs) ↔ ∀ a ∈ l, ∃ b, f a = .ok b := by
  induction l with
  | nil => exact iff_of_true ⟨[], rfl⟩ (List.forall_mem_nil _)
  | cons a l ih =>
    rw [List.forall_mem_cons, ← ih, List.mapM_cons]
    constructor
    · rintro ⟨bs, h⟩
      obtain ⟨b, hb, h⟩ := bind_eq_ok.mp h
      obtain ⟨rest, hrest, -⟩ := bind_eq_ok.mp h
      exact ⟨⟨b, hb⟩, rest, hrest⟩
    · rintro ⟨⟨b, hb⟩, rest, hrest⟩
      exact ⟨b :: rest, bind_eq_ok.mpr ⟨b, hb, bind_eq_ok.mpr ⟨rest, hrest, rfl⟩⟩⟩

theorem mapError_eq_ok {x : Except ε α} {f : ε → ε'} {a : α} :
    x.mapError f = .ok a ↔ x = .ok a := by
  cases x with
  | error e => exact ⟨nofun, nofun⟩
  | ok a' => exact ⟨fun h => congrArg _ (Except.ok.inj h), fun h => congrArg _ (Except.ok.inj h)⟩

theorem ite_error_eq_ok {c : Prop} [Decidable c] {e : ε} {x : Except ε α} {a : α} :
    (if c then .error e else x) = .ok a ↔ ¬c ∧ x = .ok a := by
  split
  · next hc => exact ⟨nofun, fun h => absurd hc h.1⟩
  · next hc => exact ⟨fun h => ⟨hc, h⟩, And.right⟩

end KirkForge.ExceptRules

/-!
## Outcomes

A call of a function that returns a result object gives a value, reports an error in the result, or
throws. A part of a computation that throws or reports an error ends the whole.
-/

namespace KirkForge

/-- `none` when the computation throws. -/
abbrev Outcome (ε α : Type) := ExceptT ε Option α

namespace Outcome

variable {ε α β : Type}

/-- What gives no value because it throws. -/
def orThrow (value : Option α) : Outcome ε α := value.map .ok

def ofExcept (result : Except ε α) : Outcome ε α := some result

/-- The computation ends with a value or with an error. -/
def Returns (x : Outcome ε α) : Prop := ∃ result : Except ε α, x = some result

/-- The computation ends with the value. -/
def Gives (x : Outcome ε α) (a : α) : Prop := x = some (.ok a)

variable {x : Outcome ε α} {f : α → Outcome ε β} {a : α} {b : β} {e : ε}

theorem Gives.inj {a' : α} (h : Gives x a) (h' : Gives x a') : a = a' :=
  Except.ok.inj (Option.some.inj (h.symm.trans h'))

@[simp] theorem gives_pure {a' : α} : Gives (pure a' : Outcome ε α) a ↔ a' = a :=
  ⟨fun h => Except.ok.inj (Option.some.inj h), fun h => h ▸ rfl⟩

@[simp] theorem returns_pure : Returns (pure a : Outcome ε α) := ⟨.ok a, rfl⟩

@[simp] theorem not_gives_throw : ¬Gives (throw e : Outcome ε α) a := nofun

@[simp] theorem returns_throw : Returns (throw e : Outcome ε α) := ⟨.error e, rfl⟩

@[simp] theorem gives_orThrow {value : Option α} :
    Gives (orThrow value : Outcome ε α) a ↔ value = some a := by
  cases value with
  | none => exact ⟨nofun, nofun⟩
  | some v => exact ⟨fun h => congrArg some (Except.ok.inj (Option.some.inj h)), fun h => h ▸ rfl⟩

@[simp] theorem returns_orThrow {value : Option α} :
    Returns (orThrow value : Outcome ε α) ↔ ∃ a, value = some a := by
  cases value with
  | none => exact ⟨nofun, nofun⟩
  | some v => exact ⟨fun _ => ⟨v, rfl⟩, fun _ => ⟨.ok v, rfl⟩⟩

@[simp] theorem gives_ofExcept {result : Except ε α} :
    Gives (ofExcept result) a ↔ result = .ok a :=
  ⟨fun h => Option.some.inj h, fun h => h ▸ rfl⟩

@[simp] theorem returns_ofExcept {result : Except ε α} : Returns (ofExcept result) := ⟨result, rfl⟩

@[simp] theorem gives_bind : Gives (x >>= f) b ↔ ∃ a, Gives x a ∧ Gives (f a) b := by
  match x with
  | none => exact ⟨nofun, fun ⟨_, h, _⟩ => nomatch h⟩
  | some (.error e) => exact ⟨nofun, fun ⟨_, h, _⟩ => nomatch h⟩
  | some (.ok a) =>
    constructor
    · intro h
      exact ⟨a, rfl, h⟩
    · rintro ⟨a', ha, h⟩
      obtain rfl : a = a' := Except.ok.inj (Option.some.inj ha)
      exact h

/-- Only the parts that are reached can throw. -/
@[simp] theorem returns_bind : Returns (x >>= f) ↔ Returns x ∧ ∀ a, Gives x a → Returns (f a) := by
  match x with
  | none => exact ⟨nofun, fun ⟨⟨_, h⟩, _⟩ => nomatch h⟩
  | some (.error e) => exact ⟨fun _ => ⟨⟨_, rfl⟩, nofun⟩, fun _ => ⟨.error e, rfl⟩⟩
  | some (.ok a) =>
    constructor
    · intro h
      refine ⟨⟨_, rfl⟩, fun a' ha => ?_⟩
      obtain rfl : a = a' := Except.ok.inj (Option.some.inj ha)
      exact h
    · rintro ⟨-, h⟩
      exact h a rfl

@[simp] theorem gives_ite_throw {c : Prop} [Decidable c] :
    Gives (if c then throw e else x) a ↔ ¬c ∧ Gives x a := by
  split
  · next h => exact ⟨nofun, fun h' => absurd h h'.1⟩
  · next h => exact ⟨fun h' => ⟨h, h'⟩, And.right⟩

theorem returns_ite_throw {c : Prop} [Decidable c] :
    Returns (if c then throw e else x) ↔ (¬c → Returns x) := by
  split
  · next h => exact ⟨fun _ h' => absurd h h', fun _ => returns_throw⟩
  · next h => exact ⟨fun h' _ => h', fun h' => h' h⟩

theorem returns_orThrow_bind {value : Option α} :
    Returns (orThrow value >>= f) ↔ ∃ a, value = some a ∧ Returns (f a) := by
  rw [returns_bind, returns_orThrow]
  constructor
  · rintro ⟨⟨a, ha⟩, h⟩
    exact ⟨a, ha, h a (gives_orThrow.mpr ha)⟩
  · rintro ⟨a, ha, h⟩
    refine ⟨⟨a, ha⟩, fun a' ha' => ?_⟩
    obtain rfl : a = a' := Option.some.inj (ha.symm.trans (gives_orThrow.mp ha'))
    exact h

end Outcome

end KirkForge
