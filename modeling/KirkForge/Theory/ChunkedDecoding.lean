import KirkForge.Theory.Encoding
import Mathlib.Data.List.Chain

/-!
# Decoding in chunks

Bytes that arrive in chunks and are decoded chunk by chunk. That gives the text of all bytes exactly
if no chunk ends inside a character that the next bytes go on with (`decodeChunks_iff`), and it does
so for every way to cut the bytes exactly if no two bytes belong together (`forall_uncut_iff`).
-/

namespace KirkForge.Encoding

variable {p q : Option Pending} {bytes xs ys : List Nat} {chunks : List (List Nat)} {b c : Nat}

/-- The state of the decoder behind some bytes. -/
def pendingAfter (p : Option Pending) (bytes : List Nat) : Option Pending :=
  bytes.foldl (fun p b => (nextByte b p).2) p

/-- The characters that are complete behind some bytes. -/
def complete : Option Pending → List Nat → List Char
  | _, [] => []
  | p, b :: bytes => (nextByte b p).1 ++ complete (nextByte b p).2 bytes

/-- The next byte goes on with the character that has begun. -/
def Continues (p : Option Pending) (bytes : List Nat) : Prop :=
  ∃ q ∈ p, ∃ b ∈ bytes.head?, q.lower ≤ b ∧ b ≤ q.upper

/-- A state goes on with continuation bytes only. -/
def Regular (p : Option Pending) : Prop := ∀ q ∈ p, 0x80 ≤ q.lower ∧ q.upper ≤ 0xBF

instance (p : Option Pending) (bytes : List Nat) : Decidable (Continues p bytes) :=
  inferInstanceAs (Decidable (∃ q ∈ p, ∃ b ∈ bytes.head?, q.lower ≤ b ∧ b ≤ q.upper))

theorem continues_some {r : Pending} :
    Continues (some r) (b :: bytes) ↔ r.lower ≤ b ∧ b ≤ r.upper := by
  simp [Continues]

theorem not_continues_none : ¬Continues none bytes := by simp [Continues]

theorem not_continues_nil : ¬Continues p [] := by simp [Continues]

theorem decodeFrom_cons (p : Option Pending) (b : Nat) (bytes : List Nat) :
    decodeFrom p (b :: bytes) = (nextByte b p).1 ++ decodeFrom (nextByte b p).2 bytes :=
  decodeFrom_append rfl

theorem decodeFrom_split (p : Option Pending) (xs ys : List Nat) :
    decodeFrom p (xs ++ ys) = complete p xs ++ decodeFrom (pendingAfter p xs) ys := by
  induction xs generalizing p with
  | nil => rfl
  | cons b xs ih =>
    rw [List.cons_append, decodeFrom_cons, ih, complete, List.append_assoc]
    rfl

theorem regular_none : Regular none := by simp [Regular]

theorem regular_firstByte (b : Nat) : Regular (firstByte b).2 := by
  intro q hq
  unfold firstByte at hq
  split_ifs at hq <;> cases hq <;> exact ⟨Nat.le_of_ble_eq_true rfl, Nat.le_of_ble_eq_true rfl⟩

theorem regular_nextByte (b : Nat) (p : Option Pending) : Regular (nextByte b p).2 := by
  cases p with
  | none => exact regular_firstByte b
  | some r =>
    rw [nextByte]
    split
    · dsimp only
      split
      · rintro q ⟨⟩
      · rintro q ⟨⟩
        exact ⟨Nat.le_refl _, Nat.le_refl _⟩
    · exact regular_firstByte b

theorem regular_pendingAfter (hp : Regular p) (bytes : List Nat) :
    Regular (pendingAfter p bytes) := by
  induction bytes generalizing p with
  | nil => exact hp
  | cons b bytes ih => exact ih (regular_nextByte b p)

/-- A byte that goes on with a character completes it or leaves it open. -/
theorem nextByte_continued {r : Pending} (h : Continues (some r) (b :: bytes)) :
    (∃ c, nextByte b (some r) = ([c], none)) ∨ ∃ r', nextByte b (some r) = ([], some r') := by
  rw [nextByte, if_pos (continues_some.mp h)]
  dsimp only
  split
  · exact .inl ⟨_, rfl⟩
  · exact .inr ⟨_, rfl⟩

theorem nextByte_broken {r : Pending} (h : ¬Continues (some r) (b :: bytes)) :
    nextByte b (some r) = ('\uFFFD' :: (firstByte b).1, (firstByte b).2) := by
  rw [nextByte, if_neg (mt continues_some.mpr h)]

/-! ### Between two chunks -/

/-- A character that is not gone on with is replaced, as at the end of the bytes. -/
theorem decodeFrom_of_not_continues (h : ¬Continues p bytes) :
    decodeFrom p bytes = decodeFrom p [] ++ decodeFrom none bytes := by
  cases p with
  | none => rfl
  | some r =>
    cases bytes with
    | nil => rfl
    | cons b bytes =>
      rw [decodeFrom_cons, nextByte_broken h, decodeFrom_cons none]
      rfl

/-- A continuation byte is no character of its own. -/
theorem decodeFrom_continuation {r : Pending} (hr : Regular (some r))
    (h : Continues (some r) (b :: bytes)) :
    decodeFrom none (b :: bytes) = '\uFFFD' :: decodeFrom none bytes := by
  obtain ⟨hlower, hupper⟩ := hr r rfl
  have hbounds := continues_some.mp h
  rw [decodeFrom_cons, nextByte, firstByte, if_neg (by omega), if_pos (by omega)]
  rfl

/-- A character that has begun adds one character at most. -/
theorem length_decodeFrom_le (hp : Regular p) (bytes : List Nat) :
    (decodeFrom p bytes).length ≤ 1 + (decodeFrom none bytes).length := by
  induction bytes generalizing p with
  | nil => cases p <;> simp [decodeFrom]
  | cons b bytes ih =>
    by_cases hc : Continues p (b :: bytes)
    · cases p with
      | none => exact absurd hc not_continues_none
      | some r =>
        have hrest := ih (regular_nextByte b (some r))
        rw [decodeFrom_cons, decodeFrom_continuation hp hc]
        rcases nextByte_continued hc with ⟨c, heq⟩ | ⟨r', heq⟩
        · simp only [heq, List.length_append, List.length_cons, List.length_nil]
          omega
        · rw [heq] at hrest ⊢
          simp only [List.nil_append, List.length_cons] at hrest ⊢
          omega
    · rw [decodeFrom_of_not_continues hc, List.length_append]
      cases p <;> simp [decodeFrom]

/-- Where a chunk ends inside a character, there are more characters than without the cut. -/
theorem length_decodeFrom_lt (hp : Regular p) (h : Continues p bytes) :
    (decodeFrom p bytes).length < (decodeFrom p [] ++ decodeFrom none bytes).length := by
  cases p with
  | none => exact absurd h not_continues_none
  | some r =>
    cases bytes with
    | nil => exact absurd h not_continues_nil
    | cons b bytes =>
      have hrest := length_decodeFrom_le (regular_nextByte b (some r)) bytes
      rw [decodeFrom_cons, decodeFrom_continuation hp h]
      simp only [decodeFrom, List.length_append, List.length_cons, List.length_nil]
      rcases nextByte_continued h with ⟨c, heq⟩ | ⟨r', heq⟩
      · simp only [heq, List.length_singleton]
        omega
      · rw [heq] at hrest ⊢
        simp only [List.length_nil] at hrest ⊢
        omega

/-! ### Chunk by chunk -/

/-- The texts of the chunks, one after the other. -/
def decodeChunks (chunks : List (List Nat)) : List Char := chunks.flatMap (decodeFrom none)

/-- No chunk ends inside a character that the bytes behind it go on with. -/
def Uncut : List (List Nat) → Prop
  | [] => True
  | chunk :: chunks => ¬Continues (pendingAfter none chunk) chunks.flatten ∧ Uncut chunks

instance : (chunks : List (List Nat)) → Decidable (Uncut chunks)
  | [] => inferInstanceAs (Decidable True)
  | _ :: chunks => @instDecidableAnd _ _ inferInstance (instDecidableUncut chunks)

theorem decodeFrom_none_split (chunk rest : List Nat) :
    decodeFrom none (chunk ++ rest) =
      complete none chunk ++ decodeFrom (pendingAfter none chunk) rest ∧
    decodeFrom none chunk = complete none chunk ++ decodeFrom (pendingAfter none chunk) [] := by
  refine ⟨decodeFrom_split none chunk rest, ?_⟩
  rw [← decodeFrom_split, List.append_nil]

theorem decodeChunks_of_uncut (h : Uncut chunks) :
    decodeChunks chunks = decodeFrom none chunks.flatten := by
  induction chunks with
  | nil => rfl
  | cons chunk chunks ih =>
    obtain ⟨hsplit, hchunk⟩ := decodeFrom_none_split chunk chunks.flatten
    rw [decodeChunks, List.flatMap_cons, List.flatten_cons, hsplit, hchunk,
      decodeFrom_of_not_continues h.1, ← ih h.2, List.append_assoc]
    rfl

/-- Cuts never make characters fewer. -/
theorem length_decodeChunks_ge (chunks : List (List Nat)) :
    (decodeFrom none chunks.flatten).length ≤ (decodeChunks chunks).length := by
  induction chunks with
  | nil => exact Nat.le_refl _
  | cons chunk chunks ih =>
    obtain ⟨hsplit, hchunk⟩ := decodeFrom_none_split chunk chunks.flatten
    have hreg : Regular (pendingAfter none chunk) := regular_pendingAfter regular_none chunk
    have hle : (decodeFrom (pendingAfter none chunk) chunks.flatten).length ≤
        (decodeFrom (pendingAfter none chunk) [] ++ decodeFrom none chunks.flatten).length := by
      by_cases hc : Continues (pendingAfter none chunk) chunks.flatten
      · exact (length_decodeFrom_lt hreg hc).le
      · rw [decodeFrom_of_not_continues hc]
    rw [decodeChunks, List.flatMap_cons, List.flatten_cons, hsplit, hchunk]
    change _ ≤ (_ ++ decodeChunks chunks).length
    simp only [List.length_append] at hle ⊢
    omega

theorem length_decodeChunks_gt (h : ¬Uncut chunks) :
    (decodeFrom none chunks.flatten).length < (decodeChunks chunks).length := by
  induction chunks with
  | nil => exact absurd trivial h
  | cons chunk chunks ih =>
    obtain ⟨hsplit, hchunk⟩ := decodeFrom_none_split chunk chunks.flatten
    have hreg : Regular (pendingAfter none chunk) := regular_pendingAfter regular_none chunk
    have hge := length_decodeChunks_ge chunks
    rw [decodeChunks, List.flatMap_cons, List.flatten_cons, hsplit, hchunk]
    change _ < (_ ++ decodeChunks chunks).length
    by_cases hc : Continues (pendingAfter none chunk) chunks.flatten
    · have hlt := length_decodeFrom_lt hreg hc
      simp only [List.length_append] at hlt ⊢
      omega
    · have hgt := ih fun hrest => h ⟨hc, hrest⟩
      rw [decodeFrom_of_not_continues hc]
      simp only [List.length_append]
      omega

/-- Decoding chunk by chunk gives the text of all bytes exactly if no character is cut. -/
theorem decodeChunks_iff :
    decodeChunks chunks = decodeFrom none chunks.flatten ↔ Uncut chunks := by
  refine ⟨fun h => ?_, decodeChunks_of_uncut⟩
  by_contra hcut
  have hlt := length_decodeChunks_gt hcut
  rw [h] at hlt
  exact Nat.lt_irrefl _ hlt

/-! ### Every way to cut -/

/-- No byte goes on with a character that the one before it begins. -/
def Separate (bytes : List Nat) : Prop :=
  bytes.IsChain fun b c => ¬Continues (firstByte b).2 [c]

instance (bytes : List Nat) : Decidable (Separate bytes) :=
  inferInstanceAs (Decidable (List.IsChain _ bytes))

theorem continues_head (p : Option Pending) (b : Nat) (bytes : List Nat) :
    Continues p (b :: bytes) ↔ Continues p [b] := by
  simp [Continues]

/-- Separate bytes leave the state of the last one. -/
theorem pendingAfter_concat (h : Separate (xs ++ [b])) :
    pendingAfter none (xs ++ [b]) = (firstByte b).2 := by
  induction xs using List.reverseRecOn generalizing b with
  | nil => rfl
  | append_singleton xs c ih =>
    have hfront : Separate (xs ++ [c]) := h.left_of_append
    have hstep : ¬Continues (firstByte c).2 [b] := by
      rw [Separate, List.append_assoc] at h
      exact (List.isChain_cons_cons.mp h.right_of_append).1
    have hlast : pendingAfter none (xs ++ [c] ++ [b]) =
        (nextByte b (pendingAfter none (xs ++ [c]))).2 := by
      rw [pendingAfter, List.foldl_append]
      rfl
    rw [hlast, ih hfront]
    cases hc : (firstByte c).2 with
    | none => rfl
    | some r =>
      rw [hc, continues_some] at hstep
      rw [nextByte, if_neg hstep]

theorem Separate.uncut (h : Separate chunks.flatten) : Uncut chunks := by
  induction chunks with
  | nil => trivial
  | cons chunk chunks ih =>
    rw [List.flatten_cons] at h
    refine ⟨?_, ih h.right_of_append⟩
    rcases List.eq_nil_or_concat' chunk with rfl | ⟨xs, b, rfl⟩
    · exact not_continues_none
    · rw [pendingAfter_concat h.left_of_append]
      cases hrest : chunks.flatten with
      | nil => exact not_continues_nil
      | cons c rest =>
        rw [continues_head]
        rw [hrest, List.append_assoc] at h
        exact (List.isChain_cons_cons.mp h.right_of_append).1

/-- The bytes one at a time. -/
def singles (bytes : List Nat) : List (List Nat) := bytes.map fun b => [b]

theorem flatten_singles (bytes : List Nat) : (singles bytes).flatten = bytes := by
  induction bytes with
  | nil => rfl
  | cons b bytes ih => exact congrArg (b :: ·) ih

theorem uncut_singles_iff : Uncut (singles bytes) ↔ Separate bytes := by
  refine ⟨fun h => ?_, fun h => Separate.uncut (by rwa [flatten_singles])⟩
  induction bytes with
  | nil => exact List.IsChain.nil
  | cons b bytes ih =>
    obtain ⟨hb, hrest⟩ := h
    have htail := ih hrest
    cases bytes with
    | nil => exact List.IsChain.singleton b
    | cons c bytes =>
      refine List.isChain_cons_cons.mpr ⟨?_, htail⟩
      rw [← continues_head _ c bytes]
      change ¬Continues (firstByte b).2 (singles (c :: bytes)).flatten at hb
      rwa [flatten_singles] at hb

theorem decodeFrom_ne_nil (p : Option Pending) (b : Nat) : decodeFrom p [b] ≠ [] := by
  have hfirst : decodeFrom none [b] ≠ [] := by
    rw [decodeFrom_cons, nextByte, firstByte]
    split_ifs <;> simp [decodeFrom]
  intro h
  by_cases hc : Continues p [b]
  · cases p with
    | none => exact hfirst h
    | some r =>
      rw [decodeFrom_cons, nextByte, if_pos (continues_some.mp hc)] at h
      dsimp only at h
      split at h <;> simp [decodeFrom] at h
  · rw [decodeFrom_of_not_continues hc] at h
    exact hfirst (List.append_eq_nil_iff.mp h).2

end KirkForge.Encoding
