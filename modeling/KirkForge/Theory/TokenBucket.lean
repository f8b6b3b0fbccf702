import Mathlib.Algebra.Order.Field.Basic
import Mathlib.Tactic.Linarith
import Mathlib.Tactic.Ring

/-!
# Token buckets

A bucket is filled at a constant rate up to its capacity, and whoever asks takes one token out of
it, if a whole one is there. Who has no bucket yet is given a full one, so that throwing away a full
bucket is no loss (`level_eq_capacity`). The tokens taken in an interval are bounded by the capacity
and what came in during the interval (`Bounded`); where the capacity is less than one token, none is
ever taken.
-/

namespace KirkForge

structure TokenBucket (K : Type*) where
  tokens : K
  lastRefill : K
  deriving DecidableEq

namespace TokenBucket

variable {K : Type*} [Field K] [LinearOrder K]

/-- The tokens that are there at `now`. -/
def level (capacity rate now : K) : Option (TokenBucket K) → K
  | none => capacity
  | some bucket => min capacity (bucket.tokens + (now - bucket.lastRefill) * rate)

/-- Take a token at `now` if there is one. -/
def take (capacity rate now : K) (bucket : Option (TokenBucket K)) : TokenBucket K × Bool :=
  let tokens := level capacity rate now bucket
  if tokens < 1 then (⟨tokens, now⟩, false) else (⟨tokens - 1, now⟩, true)

/-- No token is owed, and the bucket has not been filled later than `now`. -/
structure Sound (now : K) (bucket : TokenBucket K) : Prop where
  tokens : 0 ≤ bucket.tokens
  past : bucket.lastRefill ≤ now

variable {capacity rate now now' : K} {bucket : Option (TokenBucket K)} {b : TokenBucket K}

theorem level_le : level capacity rate now bucket ≤ capacity := by
  cases bucket with
  | none => exact le_rfl
  | some b => exact min_le_left ..

theorem take_accepts : (take capacity rate now bucket).2 = true ↔
    1 ≤ level capacity rate now bucket := by
  rw [take]
  split
  · next h => simpa using h
  · next h => simpa using h

theorem lastRefill_take : (take capacity rate now bucket).1.lastRefill = now := by
  rw [take]
  split <;> rfl

theorem Sound.mono (h : Sound now b) (hle : now ≤ now') : Sound now' b :=
  ⟨h.tokens, h.past.trans hle⟩

variable [IsStrictOrderedRing K]

theorem level_nonneg (hcapacity : 0 ≤ capacity) (hrate : 0 ≤ rate)
    (h : ∀ b ∈ bucket, Sound now b) : 0 ≤ level capacity rate now bucket := by
  cases bucket with
  | none => exact hcapacity
  | some b =>
    have hb := h b rfl
    have hin : 0 ≤ (now - b.lastRefill) * rate := mul_nonneg (sub_nonneg.mpr hb.past) hrate
    exact le_min hcapacity (add_nonneg hb.tokens hin)

/-- No more tokens come in than the rate allows. -/
theorem level_later (hrate : 0 ≤ rate) (hle : now ≤ now') :
    level capacity rate now' bucket ≤ level capacity rate now bucket + (now' - now) * rate := by
  have hin : 0 ≤ (now' - now) * rate := mul_nonneg (sub_nonneg.mpr hle) hrate
  cases bucket with
  | none => exact le_add_of_nonneg_right hin
  | some b =>
    have hsplit : b.tokens + (now' - b.lastRefill) * rate =
        b.tokens + (now - b.lastRefill) * rate + (now' - now) * rate := by ring
    rw [level, level, hsplit, ← min_add_add_right]
    exact min_le_min_right _ (le_add_of_nonneg_right hin)

/-- A bucket that is left alone for long enough is full. -/
theorem level_eq_capacity (h : Sound now b) (hfull : capacity ≤ (now - b.lastRefill) * rate) :
    level capacity rate now (some b) = capacity :=
  min_eq_left (hfull.trans (le_add_of_nonneg_left h.tokens))

omit [IsStrictOrderedRing K] in
theorem level_self (htokens : b.tokens ≤ capacity) :
    level capacity rate b.lastRefill (some b) = b.tokens := by
  rw [level, sub_self, zero_mul, add_zero]
  exact min_eq_right htokens

/-- One token less is there, or just as many. -/
theorem level_take : level capacity rate now (some (take capacity rate now bucket).1) =
    level capacity rate now bucket - if (take capacity rate now bucket).2 then 1 else 0 := by
  have hle : level capacity rate now bucket ≤ capacity := level_le
  rw [take]
  split
  · exact (level_self hle).trans (sub_zero _).symm
  · exact level_self ((sub_le_self _ zero_le_one).trans hle)

theorem sound_take (hcapacity : 0 ≤ capacity) (hrate : 0 ≤ rate)
    (h : ∀ b ∈ bucket, Sound now b) : Sound now (take capacity rate now bucket).1 := by
  rw [take]
  split
  · exact ⟨level_nonneg hcapacity hrate h, le_rfl⟩
  · next hone => exact ⟨sub_nonneg.mpr (not_lt.mp hone), le_rfl⟩

/-! ### The tokens taken in an interval -/

/-- What is known at `now` of the number of tokens taken between `start` and `stop`. -/
structure Bounded (capacity rate start stop now level : K) (taken : Nat) : Prop where
  before : now < start → taken = 0
  during : start ≤ now → now ≤ stop → taken + level ≤ capacity + (now - start) * rate
  total : taken ≤ capacity + (stop - start) * rate

variable {start stop l l' : K} {taken : Nat}

theorem Bounded.zero (hcapacity : 0 ≤ capacity) (hrate : 0 ≤ rate) (hinterval : start ≤ stop)
    (hl : l ≤ capacity) : Bounded capacity rate start stop now l 0 where
  before _ := rfl
  during hstart _ := by
    have hin : 0 ≤ (now - start) * rate := mul_nonneg (sub_nonneg.mpr hstart) hrate
    rw [Nat.cast_zero, zero_add]
    exact hl.trans (le_add_of_nonneg_right hin)
  total := by
    have hin : 0 ≤ (stop - start) * rate := mul_nonneg (sub_nonneg.mpr hinterval) hrate
    rw [Nat.cast_zero]
    exact add_nonneg hcapacity hin

/-- Time passes. -/
theorem Bounded.later (h : Bounded capacity rate start stop now l taken) (hle : now ≤ now')
    (hrate : 0 ≤ rate) (hl : l' ≤ l + (now' - now) * rate) (hl' : l' ≤ capacity) :
    Bounded capacity rate start stop now' l' taken where
  before hbefore := h.before (hle.trans_lt hbefore)
  during hstart hstop := by
    rcases lt_or_ge now start with hbefore | hafter
    · have hin : 0 ≤ (now' - start) * rate := mul_nonneg (sub_nonneg.mpr hstart) hrate
      rw [h.before hbefore, Nat.cast_zero, zero_add]
      exact hl'.trans (le_add_of_nonneg_right hin)
    · calc (taken : K) + l' ≤ taken + (l + (now' - now) * rate) := by gcongr
        _ = taken + l + (now' - now) * rate := by ring
        _ ≤ capacity + (now - start) * rate + (now' - now) * rate :=
          add_le_add (h.during hafter (hle.trans hstop)) le_rfl
        _ = capacity + (now' - start) * rate := by ring
  total := h.total

/-- A token is taken in the interval. -/
theorem Bounded.take (h : Bounded capacity rate start stop now l taken) (hstart : start ≤ now)
    (hstop : now ≤ stop) (hrate : 0 ≤ rate) (hone : 1 ≤ l) :
    Bounded capacity rate start stop now (l - 1) (taken + 1) where
  before hbefore := absurd hbefore (not_lt.mpr hstart)
  during _ _ := by
    have hduring := h.during hstart hstop
    push_cast
    linarith
  total := by
    have hduring := h.during hstart hstop
    have hin : (now - start) * rate ≤ (stop - start) * rate :=
      mul_le_mul_of_nonneg_right (sub_le_sub_right hstop start) hrate
    push_cast
    linarith

/-- There are no more tokens than before. -/
theorem Bounded.level_le (h : Bounded capacity rate start stop now l taken) (hl : l' ≤ l) :
    Bounded capacity rate start stop now l' taken where
  before := h.before
  during hstart hstop := (by gcongr : (taken : K) + l' ≤ taken + l).trans (h.during hstart hstop)
  total := h.total

end TokenBucket

end KirkForge
