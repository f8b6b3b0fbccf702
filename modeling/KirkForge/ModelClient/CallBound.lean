import KirkForge.ModelClient.Chat
import KirkForge.Theory.Lists

/-!
# The bound on concurrent calls

What the limiter does keep: it counts the calls that hold a slot, queues a call only when they are
as many as the limit, and wakes one for each slot that is given back. The request loops outlive the
slots, so that their number is bounded only if no slot is taken that a request loop has given back
too early (`LeavesRoom`).
-/

namespace KirkForge.ModelClients

open ModelClient Census

variable {s : ModelClients} {id : Nat} {call : ChatCall} {slack : Int}

def Queued (call : ChatCall) : Prop := call.phase = .queued

def Holding (call : ChatCall) : Prop := call.phase = .holding

instance : DecidablePred Queued := fun _ => inferInstanceAs (Decidable (_ = _))

instance : DecidablePred Holding := fun _ => inferInstanceAs (Decidable (_ = _))

theorem le_mono {n m : Nat} {max : JsNumber} (hle : JsNumber.le n max = true) (hmn : m ≤ n) :
    JsNumber.le m max = true := by
  cases max with
  | finite q =>
    have hn : (n : ℚ) ≤ q := of_decide_eq_true hle
    exact decide_eq_true ((Nat.cast_le.mpr hmn).trans hn)
  | posInf => rfl
  | negInf => exact absurd hle (by simp [JsNumber.le])
  | nan => exact absurd hle (by simp [JsNumber.le])

theorem WithinLimit.mono {n m : Nat} (h : WithinLimit s n call) (hmn : m ≤ n) :
    WithinLimit s m call := by
  obtain ⟨max, hmax, hle⟩ := h
  exact ⟨max, hmax, le_mono hle hmn⟩

/-- Of any request loops in progress, one was made under a limit that their number keeps. -/
def Roomy (s : ModelClients) : Prop :=
  ∀ ids ⊆ places InLoop s.calls, ids.Nonempty →
    ∃ id ∈ ids, ∃ call, s.calls[id]? = some call ∧ WithinLimit s ids.card call

/-- The books of a call: nothing is given back before the slot is, and then once. -/
def Kept (call : ChatCall) : Prop :=
  call.givenTo = if call.phase = .queued ∨ call.phase = .holding then [] else [call.limiter]

/-- The limiter counts the calls that hold a slot, with so many in addition. -/
structure Inv (slack : Int) (s : ModelClients) : Prop where
  recent : ∀ call ∈ s.calls, call.phase = .queued ∨ call.phase = .holding →
    call.limiter = s.past.length
  running : s.limiter.running = (s.calls.countP (Holding ·) : Int) + slack
  nodup : s.limiter.queue.Nodup
  queue : ∀ id, id ∈ s.limiter.queue ↔ id ∈ places Queued s.calls
  full : s.limiter.queue ≠ [] →
    JsNumber.gt s.limiter.maxConcurrent (.finite s.limiter.running) = false
  books : ∀ call ∈ s.calls, Kept call
  roomy : Roomy s

/-- While a call holds a slot, the calls that hold one and the request loops in progress are within
the limit. -/
def Held (s : ModelClients) : Prop :=
  0 < s.calls.countP (Holding ·) →
    JsNumber.le (s.calls.countP (Busy ·)) s.limiter.maxConcurrent = true

theorem gt_mono {max : JsNumber} {a b : ℚ} (h : JsNumber.gt max (.finite a) = false)
    (hab : a ≤ b) : JsNumber.gt max (.finite b) = false := by
  cases max with
  | finite q =>
    have hq : q ≤ a := by simpa [JsNumber.gt, JsNumber.le] using h
    simpa [JsNumber.gt, JsNumber.le] using hq.trans hab
  | posInf => simp [JsNumber.gt, JsNumber.le] at h
  | negInf | nan => simp [JsNumber.gt, JsNumber.le]

theorem Inv.orderly (h : Inv 0 s) : s.Orderly := by
  refine ⟨fun hpos => ?_, h.books, ?_⟩
  · have hcard : (places InLoop s.calls).card = s.loops := card_places s.calls
    obtain ⟨id, hid, call, hget, hwithin⟩ := h.roomy _ (Finset.Subset.refl _)
      (Finset.card_pos.mp (hcard ▸ hpos))
    obtain ⟨call', hget', hloop⟩ := mem_places.mp hid
    cases hget.symm.trans hget'
    exact ⟨call, List.mem_of_getElem? hget, hloop, hcard ▸ hwithin⟩
  · rintro ⟨call, hmem, hphase⟩
    obtain ⟨id, hid⟩ := List.mem_iff_getElem?.mp hmem
    have hqueue : id ∈ s.limiter.queue := (h.queue id).mpr (mem_places.mpr ⟨call, hid, hphase⟩)
    have hfull := h.full (List.ne_nil_of_mem hqueue)
    have hbusy : s.calls.countP (Holding ·) ≤ s.calls.countP (Busy ·) :=
      List.countP_mono_left fun call _ hholding =>
        decide_eq_true (.inl (of_decide_eq_true hholding))
    rw [h.running, Int.add_zero] at hfull
    rw [Bool.not_eq_true]
    exact gt_mono hfull (by exact_mod_cast hbusy)

/-! ### Steps -/

theorem attemptPhase_past (attempt : Nat) (config : ModelClientOptions) :
    attemptPhase attempt config ≠ .queued ∧ attemptPhase attempt config ≠ .holding := by
  rw [attemptPhase]
  split <;> exact ⟨nofun, nofun⟩

/-- What a step does: a request loop in progress goes on or ends, or one of the other inputs has its
effect, or nothing happens. -/
inductive Moves (s : ModelClients) : ClientInput → ModelClients → Prop
  | chat (config : ModelClientOptions) : Moves s (.chat config) (s.step (.chat config))
  | setMaxConcurrent (max : JsNumber) :
    Moves s (.setMaxConcurrent max) (s.step (.setMaxConcurrent max))
  | resume {id : Nat} {call : ChatCall} (now : Int) (hget : s.calls[id]? = some call)
    (hphase : call.phase = .holding) : Moves s (.resume id now) (s.resume id call now)
  | goOn {id : Nat} {call : ChatCall} {phase : CallPhase} (i : ClientInput)
    (breaker : CircuitBreaker) (hget : s.calls[id]? = some call) (hin : InLoop call)
    (hpast : phase ≠ .queued ∧ phase ≠ .holding) :
    Moves s i (setPhase id call phase { s with breaker })
  | idle (i : ClientInput) : Moves s i s

theorem settle_moves {attempt : Nat} (hget : s.calls[id]? = some call)
    (hphase : call.phase = .requesting attempt) (outcome : RequestOutcome) (now : Int)
    (i : ClientInput) : Moves s i (s.settle id call attempt outcome now) := by
  have hin : InLoop call := by
    rw [InLoop, hphase]
    trivial
  cases outcome with
  | response => exact .goOn i _ hget hin ⟨nofun, nofun⟩
  | modelError e =>
    refine .goOn i _ hget hin ?_
    split <;> exact ⟨nofun, nofun⟩
  | otherError => exact .goOn i s.breaker hget hin ⟨nofun, nofun⟩

theorem step_moves (s : ModelClients) (i : ClientInput) : Moves s i (s.step i) := by
  cases i with
  | chat config => exact .chat config
  | setMaxConcurrent max => exact .setMaxConcurrent max
  | resume id now =>
    rw [step]
    split
    · next call hget =>
      split
      · next hphase => exact .resume now hget hphase
      · exact .idle _
    · exact .idle _
  | settle id outcome now =>
    rw [step]
    split
    · next call hget =>
      split
      · next attempt hphase => exact settle_moves hget hphase outcome now _
      · exact .idle _
    · exact .idle _
  | wake id =>
    rw [step]
    split
    · next call hget =>
      split
      · next attempt hphase =>
        have hin : InLoop call := by
          rw [InLoop, hphase]
          trivial
        exact .goOn _ s.breaker hget hin (attemptPhase_past _ _)
      · exact .idle _
    · exact .idle _

/-! ### The books -/

theorem Inv.withBreaker (h : Inv slack s) (breaker : CircuitBreaker) :
    Inv slack { s with breaker } :=
  ⟨h.recent, h.running, h.nodup, h.queue, h.full, h.books, h.roomy⟩

theorem kept_of_mem_set {call' : ChatCall} (h : ∀ c ∈ s.calls, Kept c) (hcall' : Kept call') :
    ∀ c ∈ s.calls.set id call', Kept c := by
  intro c hc
  obtain hc | rfl := List.mem_or_eq_of_mem_set hc
  · exact h c hc
  · exact hcall'

theorem WithinLimit.congr {n : Nat} {call' : ChatCall} (h : WithinLimit s n call)
    (hlimiter : call'.limiter = call.limiter) : WithinLimit s n call' := by
  rwa [WithinLimit, hlimiter]

/-- A call whose loop goes on, ends, or begins where there is room for it. -/
theorem Roomy.set (h : Roomy s) (hget : s.calls[id]? = some call) {call' : ChatCall}
    (hlimiter : call'.limiter = call.limiter)
    (hloop : InLoop call' → InLoop call ∨ WithinLimit s (s.loops + 1) call) :
    Roomy { s with calls := s.calls.set id call' } := by
  intro ids hsub hne
  have hlt : id < s.calls.length := (List.getElem?_eq_some_iff.mp hget).1
  have hold : ids ⊆ insert id (places InLoop s.calls) := by
    intro j hj
    have hmem := hsub hj
    rw [mem_places_set hget] at hmem
    rw [Finset.mem_insert]
    split at hmem
    · next heq => exact .inl heq
    · exact .inr hmem
  -- either all of them were in progress before, or the one that begins has room
  by_cases hbegins : id ∈ ids ∧ ¬InLoop call
  · obtain ⟨hid, hnot⟩ := hbegins
    have hloop' : InLoop call' := by
      have hmem := hsub hid
      rwa [mem_places_set hget, if_pos rfl] at hmem
    have hroom := (hloop hloop').resolve_left hnot
    refine ⟨id, hid, call', List.getElem?_set_self hlt, (hroom.congr hlimiter).mono ?_⟩
    calc ids.card ≤ (insert id (places InLoop s.calls)).card := Finset.card_le_card hold
      _ ≤ (places InLoop s.calls).card + 1 := Finset.card_insert_le _ _
      _ = s.loops + 1 := congrArg (· + 1) (card_places s.calls)
  · have hbefore : ids ⊆ places InLoop s.calls := by
      intro j hj
      obtain rfl | hmem := Finset.mem_insert.mp (hold hj)
      · exact mem_places.mpr ⟨call, hget, not_not.mp fun hnot => hbegins ⟨hj, hnot⟩⟩
      · exact hmem
    obtain ⟨j, hj, c, hc, hwithin⟩ := h ids hbefore hne
    by_cases hji : j = id
    · subst hji
      cases hget.symm.trans hc
      exact ⟨j, hj, call', List.getElem?_set_self hlt, hwithin.congr hlimiter⟩
    · exact ⟨j, hj, c, (List.getElem?_set_ne (Ne.symm hji)).trans hc, hwithin⟩

/-- A call that is past the limiter leaves it as it was, but for the slot that it held. -/
theorem Inv.advance (h : Inv slack s) (hget : s.calls[id]? = some call) {call' : ChatCall}
    (hqueued : ¬Queued call) (hqueued' : ¬Queued call') (hholding' : ¬Holding call')
    (hlimiter : call'.limiter = call.limiter) (hkept : Kept call')
    (hloop : InLoop call' → InLoop call ∨ WithinLimit s (s.loops + 1) call) :
    Inv (slack + if Holding call then 1 else 0) { s with calls := s.calls.set id call' } := by
  have hcount := countP_set (p := Holding) (b := call') hget
  rw [if_neg hholding', Nat.add_zero] at hcount
  refine ⟨?_, ?_, h.nodup, ?_, h.full, kept_of_mem_set h.books hkept, ?_⟩
  · intro c hc hphase
    obtain hc | rfl := List.mem_or_eq_of_mem_set hc
    · exact h.recent c hc hphase
    · exact absurd hphase (not_or.mpr ⟨hqueued', hholding'⟩)
  · have hrunning := h.running
    show s.limiter.running = ((s.calls.set id call').countP (Holding ·) : Int) + _
    by_cases hholding : Holding call
    · rw [if_pos hholding] at hcount ⊢
      omega
    · rw [if_neg hholding] at hcount ⊢
      omega
  · intro j
    rw [h.queue, mem_places_set hget]
    split
    · next hj =>
      subst hj
      refine iff_of_false (fun hmem => ?_) hqueued'
      obtain ⟨c, hc, hphase⟩ := mem_places.mp hmem
      cases hget.symm.trans hc
      exact hqueued hphase
    · rfl
  · exact h.roomy.set hget hlimiter hloop

theorem release_nil (h : s.limiter.queue = []) :
    s.release = { s with limiter := { s.limiter with running := s.limiter.running - 1 } } := by
  simp only [release, ConcurrencyLimiter.release, h]

theorem release_cons {next : Nat} {rest : List Nat} (h : s.limiter.queue = next :: rest)
    (hget : s.calls[next]? = some call) :
    s.release = { s with
      limiter := { s.limiter with running := s.limiter.running - 1 + 1, queue := rest }
      calls := s.calls.set next { call with phase := .holding } } := by
  simp only [release, ConcurrencyLimiter.release, h, hget, setPhase]

/-- The slot goes to the first call of the queue, or else there is one more to be had. -/
theorem Inv.release (h : Inv 1 s) : Inv 0 s.release := by
  have hrunning := h.running
  cases hq : s.limiter.queue with
  | nil =>
    rw [release_nil hq]
    refine ⟨h.recent, ?_, h.nodup, h.queue, fun hne => absurd hq hne, h.books, h.roomy⟩
    show s.limiter.running - 1 = (s.calls.countP (Holding ·) : Int) + 0
    omega
  | cons next rest =>
    have hnodup := h.nodup
    have hqueue := h.queue
    rw [hq] at hnodup hqueue
    obtain ⟨hnext, hrest⟩ := List.nodup_cons.mp hnodup
    obtain ⟨call, hget, hphase⟩ := mem_places.mp ((hqueue next).mp List.mem_cons_self)
    have hkept := h.books call (List.mem_of_getElem? hget)
    have hphase : call.phase = .queued := hphase
    rw [release_cons hq hget]
    refine ⟨?_, ?_, hrest, ?_, fun _ => ?_, kept_of_mem_set h.books ?_, ?_⟩
    · intro c hc hwaits
      obtain hc | rfl := List.mem_or_eq_of_mem_set hc
      · exact h.recent c hc hwaits
      · exact h.recent call (List.mem_of_getElem? hget) (.inl hphase)
    · have hcount := countP_set (p := Holding) (b := { call with phase := .holding }) hget
      have hholding : Holding { call with phase := .holding } := rfl
      rw [if_neg (by simp [Holding, hphase]), if_pos hholding] at hcount
      show s.limiter.running - 1 + 1 =
        ((s.calls.set next { call with phase := .holding }).countP (Holding ·) : Int) + 0
      omega
    · intro j
      rw [mem_places_set hget]
      split
      · next hj => exact iff_of_false (hj ▸ hnext) nofun
      · next hj => rw [← hqueue, List.mem_cons, or_iff_right hj]
    · have hfull := h.full (hq ▸ List.cons_ne_nil next rest)
      rwa [Int.sub_add_cancel]
    · rw [Kept, if_pos (.inl hphase)] at hkept
      rw [Kept, if_pos (.inr rfl)]
      exact hkept
    · exact h.roomy.set hget rfl fun hloop => hloop.elim

/-- A call that is not in its loop yet takes no room. -/
theorem Roomy.concat (h : Roomy s) {limiter : ConcurrencyLimiter}
    (hmax : limiter.maxConcurrent = s.limiter.maxConcurrent) (hloop : ¬InLoop call) :
    Roomy { s with limiter, calls := s.calls ++ [call] } := by
  intro ids hsub hne
  have hold : ids ⊆ places InLoop s.calls := by
    intro j hj
    obtain hmem | ⟨-, hnew⟩ := mem_places_concat.mp (hsub hj)
    · exact hmem
    · exact absurd hnew hloop
  obtain ⟨j, hj, c, hc, hwithin⟩ := h ids hold hne
  refine ⟨j, hj, c, ?_, ?_⟩
  · exact (List.getElem?_append_left (List.getElem?_eq_some_iff.mp hc).1).trans hc
  · rw [WithinLimit, limits] at hwithin ⊢
    rwa [← hmax] at hwithin

theorem Inv.chat (h : Inv 0 s) (config : ModelClientOptions) : Inv 0 (s.step (.chat config)) := by
  have hrunning := h.running
  have hrecent (phase : CallPhase) :
      ∀ c ∈ s.calls ++ [⟨config, s.past.length, phase, []⟩], c.phase = .queued ∨ c.phase = .holding →
        c.limiter = s.past.length := by
    intro c hc hwaits
    obtain hc | hc := List.mem_append.mp hc
    · exact h.recent c hc hwaits
    · rw [List.mem_singleton.mp hc]
  have hbooks {phase : CallPhase} (hphase : phase = .queued ∨ phase = .holding) :
      ∀ c ∈ s.calls ++ [⟨config, s.past.length, phase, []⟩], Kept c := by
    refine List.forall_mem_append.mpr ⟨h.books, List.forall_mem_singleton.mpr ?_⟩
    exact (if_pos hphase).symm
  rw [step, ConcurrencyLimiter.acquire]
  split
  · next hroom =>
    have hnil : s.limiter.queue = [] := by
      by_contra hne
      rw [h.full hne] at hroom
      exact Bool.false_ne_true hroom
    refine ⟨hrecent _, ?_, h.nodup, fun id => ?_, fun hne => absurd hnil hne, hbooks (.inr rfl),
      h.roomy.concat rfl fun hloop => hloop.elim⟩
    · show s.limiter.running + 1 = ((s.calls ++ [_]).countP (Holding ·) : Int) + 0
      have hone : List.countP (Holding ·) [(⟨config, s.past.length, .holding, []⟩ : ChatCall)] = 1 :=
        rfl
      rw [List.countP_append, if_pos rfl, hone]
      omega
    · rw [mem_places_concat, ← h.queue, or_iff_left]
      exact fun hnew => nomatch hnew.2
  · next hfull =>
    have hfresh : s.calls.length ∉ s.limiter.queue := by
      rw [h.queue, mem_places]
      rintro ⟨c, hc, -⟩
      exact absurd (List.getElem?_eq_some_iff.mp hc).1 (Nat.lt_irrefl _)
    refine ⟨hrecent _, ?_, ?_, fun id => ?_, fun _ => Bool.not_eq_true _ ▸ hfull, hbooks (.inl rfl),
      h.roomy.concat rfl fun hloop => hloop.elim⟩
    · show s.limiter.running = ((s.calls ++ [_]).countP (Holding ·) : Int) + 0
      have hnone : List.countP (Holding ·) [(⟨config, s.past.length, .queued, []⟩ : ChatCall)] = 0 :=
        rfl
      rw [List.countP_append, if_neg Bool.false_ne_true, hnone]
      omega
    · exact List.nodup_append.mpr ⟨h.nodup, List.nodup_singleton _, fun a ha b hb hab =>
        hfresh (List.mem_singleton.mp hb ▸ hab ▸ ha)⟩
    · rw [mem_places_concat, ← h.queue, List.mem_append, List.mem_singleton]
      exact or_congr Iff.rfl ⟨fun hid => ⟨hid, rfl⟩, And.left⟩

theorem Inv.setMaxConcurrent (h : Inv 0 s)
    (hidle : ∀ call ∈ s.calls, call.phase ≠ .queued ∧ call.phase ≠ .holding) (max : JsNumber) :
    Inv 0 (s.step (.setMaxConcurrent max)) := by
  refine ⟨fun c hc hwaits => ?_, ?_, List.nodup_nil, fun id => ?_, fun hne => absurd rfl hne,
    h.books, fun ids hsub hne => ?_⟩
  · exact absurd hwaits (not_or.mpr (hidle c hc))
  · have hnone : s.calls.countP (Holding ·) = 0 :=
      List.countP_eq_zero.mpr fun c hc hholding => (hidle c hc).2 (of_decide_eq_true hholding)
    show (0 : Int) = (s.calls.countP (Holding ·) : Int) + 0
    omega
  · refine iff_of_false List.not_mem_nil fun hmem => ?_
    obtain ⟨c, hc, hphase⟩ := mem_places.mp hmem
    exact (hidle c (List.mem_of_getElem? hc)).1 hphase
  · obtain ⟨j, hj, c, hc, limit, hlimit, hle⟩ := h.roomy ids hsub hne
    refine ⟨j, hj, c, hc, limit, ?_, hle⟩
    have hlimits : (s.step (.setMaxConcurrent max)).limits = s.limits ++ [max] := by
      simp [step, limits]
    rw [hlimits, List.drop_append]
    exact List.mem_append_left _ hlimit

theorem Inv.resume (h : Inv 0 s) (hget : s.calls[id]? = some call) (hphase : call.phase = .holding)
    {now : Int} (hroom : (s.breaker.isOpen (cbKey call.config) now).1 = false →
      JsNumber.le 0 call.config.maxRetries = true → WithinLimit s (s.loops + 1) call) :
    Inv 0 (s.resume id call now) := by
  have hmem := List.mem_of_getElem? hget
  have hbooks := h.books call hmem
  rw [Kept, if_pos (.inr hphase)] at hbooks
  have hlimiter := h.recent call hmem (.inr hphase)
  have hholding : Holding call := hphase
  -- past the limiter the call is in its loop or settled
  have hadvance {phase : CallPhase} (hpast : phase ≠ .queued ∧ phase ≠ .holding)
      (hloop : InLoop { call with phase } → WithinLimit s (s.loops + 1) call) :
      Inv 1 { s with
        calls := s.calls.set id
          ⟨call.config, call.limiter, phase, call.givenTo ++ [s.past.length]⟩ } := by
    have hkept : Kept ⟨call.config, call.limiter, phase, call.givenTo ++ [s.past.length]⟩ := by
      rw [Kept, if_neg (not_or.mpr hpast), hbooks, List.nil_append, hlimiter]
    have hqueued : ¬Queued call := by simp [Queued, hphase]
    have hset : Inv (0 + if Holding call then 1 else 0) { s with
        calls := s.calls.set id
          ⟨call.config, call.limiter, phase, call.givenTo ++ [s.past.length]⟩ } :=
      h.advance hget hqueued hpast.1 hpast.2 rfl hkept fun hin => .inr (hloop hin)
    rwa [if_pos hholding, Int.zero_add] at hset
  rw [ModelClients.resume]
  refine Inv.release ((hadvance ?_ ?_).withBreaker _)
  · split
    · exact ⟨nofun, nofun⟩
    · exact attemptPhase_past _ _
  · split
    · exact fun hin => hin.elim
    · next hclosed =>
      rw [attemptPhase]
      split
      · next hbegins => exact fun _ => hroom (Bool.not_eq_true _ ▸ hclosed) hbegins
      · exact fun hin => hin.elim

/-- A loop in progress goes on or ends. -/
theorem Inv.setPhase (h : Inv 0 s) (hget : s.calls[id]? = some call) (hin : InLoop call)
    {phase : CallPhase} (hpast : phase ≠ .queued ∧ phase ≠ .holding) :
    Inv 0 (s.setPhase id call phase) := by
  have hqueued : call.phase ≠ .queued := by
    intro hqueued
    rw [InLoop, hqueued] at hin
    exact hin
  have hholding : call.phase ≠ .holding := by
    intro hholding
    rw [InLoop, hholding] at hin
    exact hin
  have hbooks := h.books call (List.mem_of_getElem? hget)
  rw [Kept, if_neg (not_or.mpr ⟨hqueued, hholding⟩)] at hbooks
  have hkept : Kept { call with phase } := by
    rw [Kept, if_neg (not_or.mpr hpast)]
    exact hbooks
  have hset : Inv (0 + if Holding call then 1 else 0) (s.setPhase id call phase) :=
    h.advance hget hqueued hpast.1 hpast.2 rfl hkept fun _ => .inl hin
  have hnot : ¬Holding call := hholding
  rwa [if_neg hnot, Int.zero_add] at hset

/-! ### Room for a request loop -/

theorem countP_busy (calls : List ChatCall) :
    calls.countP (Busy ·) = calls.countP (Holding ·) + calls.countP (InLoop ·) := by
  induction calls with
  | nil => rfl
  | cons c calls ih =>
    have hone : (if decide (Busy c) = true then 1 else 0) =
        (if decide (Holding c) = true then 1 else 0) + if decide (InLoop c) = true then 1 else 0 := by
      obtain ⟨config, limiter, phase, givenTo⟩ := c
      cases phase <;> rfl
    rw [List.countP_cons, List.countP_cons, List.countP_cons, ih, hone]
    omega

/-- A call that holds a slot finds room for its request loop under the limit in force. -/
theorem Held.withinLimit (hheld : Held s) (h : Inv 0 s) (hget : s.calls[id]? = some call)
    (hphase : call.phase = .holding) : WithinLimit s (s.loops + 1) call := by
  have hmem := List.mem_of_getElem? hget
  have hpos : 0 < s.calls.countP (Holding ·) :=
    List.countP_pos_iff.mpr ⟨call, hmem, decide_eq_true hphase⟩
  refine ⟨s.limiter.maxConcurrent, ?_, le_mono (hheld hpos) ?_⟩
  · rw [h.recent call hmem (.inr hphase), limits, List.drop_left' (List.length_map _)]
    exact List.mem_singleton_self _
  · rw [countP_busy, loops]
    omega

theorem Held.of_le {s' : ModelClients} (hheld : Held s)
    (hmax : s'.limiter.maxConcurrent = s.limiter.maxConcurrent)
    (hholding : s'.calls.countP (Holding ·) ≤ s.calls.countP (Holding ·))
    (hbusy : s'.calls.countP (Busy ·) ≤ s.calls.countP (Busy ·)) : Held s' := by
  intro hpos
  rw [hmax]
  exact le_mono (hheld (Nat.lt_of_lt_of_le hpos hholding)) hbusy

/-- A call that was not waiting for its slot stays out of the way. -/
theorem Held.setPhase (hheld : Held s) (hget : s.calls[id]? = some call) (hin : InLoop call)
    {phase : CallPhase} (hpast : phase ≠ .queued ∧ phase ≠ .holding) :
    Held (s.setPhase id call phase) := by
  have hnot : ¬Holding { call with phase } := hpast.2
  have hholding := countP_set (p := Holding) (b := { call with phase }) hget
  have hbusy := countP_set (p := Busy) (b := { call with phase }) hget
  rw [if_neg hnot] at hholding
  rw [if_pos (.inr hin)] at hbusy
  refine hheld.of_le rfl ?_ ?_
  · show (s.calls.set id { call with phase }).countP (Holding ·) ≤ _
    omega
  · show (s.calls.set id { call with phase }).countP (Busy ·) ≤ _
    split at hbusy <;> omega

theorem Held.chat (hheld : Held s) (h : Inv 0 s) {config : ModelClientOptions}
    (hroom : LeavesRoom s (.chat config)) : Held (s.step (.chat config)) := by
  have hrunning : s.limiter.running = (s.calls.countP (Holding ·) : Int) := by
    rw [h.running, Int.add_zero]
  rw [step, ConcurrencyLimiter.acquire]
  split
  · next hfree =>
    rw [hrunning] at hfree
    intro _
    show JsNumber.le ((s.calls ++ [_]).countP (Busy ·)) s.limiter.maxConcurrent = true
    have hone : List.countP (Busy ·) [(⟨config, s.past.length, .holding, []⟩ : ChatCall)] = 1 := rfl
    rw [List.countP_append, if_pos rfl, hone]
    exact hroom (by exact_mod_cast hfree)
  · have hnone : List.countP (Holding ·) [(⟨config, s.past.length, .queued, []⟩ : ChatCall)] = 0 :=
      rfl
    have hidle : List.countP (Busy ·) [(⟨config, s.past.length, .queued, []⟩ : ChatCall)] = 0 := rfl
    refine hheld.of_le rfl ?_ ?_
    · show (s.calls ++ [_]).countP (Holding ·) ≤ _
      rw [List.countP_append, if_neg Bool.false_ne_true, hnone, Nat.add_zero]
    · show (s.calls ++ [_]).countP (Busy ·) ≤ _
      rw [List.countP_append, if_neg Bool.false_ne_true, hidle, Nat.add_zero]

/-- A call that gives its slot back begins a request loop with nobody in the queue, or makes room
for the one that is woken. -/
theorem Held.resume (hheld : Held s) (h : Inv 0 s) (hget : s.calls[id]? = some call)
    (hphase : call.phase = .holding) {now : Int} (hroom : LeavesRoom s (.resume id now)) :
    Held (s.resume id call now) := by
  have hmem := List.mem_of_getElem? hget
  have hpos : 0 < s.calls.countP (Holding ·) :=
    List.countP_pos_iff.mpr ⟨call, hmem, decide_eq_true hphase⟩
  rw [ModelClients.resume]
  generalize hp : (if (s.breaker.isOpen (cbKey call.config) now).1 = true then .settled
    else attemptPhase 0 call.config) = phase
  generalize hcall' : ({ call with phase, givenTo := call.givenTo ++ [s.past.length] } : ChatCall) =
    call'
  have hnot : call'.phase ≠ .queued ∧ call'.phase ≠ .holding := by
    rw [← hcall', ← hp]
    split
    · exact ⟨nofun, nofun⟩
    · exact attemptPhase_past _ _
  have hholding := countP_set (p := Holding) (b := call') hget
  have hbusy := countP_set (p := Busy) (b := call') hget
  have hcall : Holding call := hphase
  have hpast : ¬Holding call' := hnot.2
  rw [if_pos hcall, if_neg hpast] at hholding
  rw [if_pos (.inl hphase)] at hbusy
  generalize hs' : ({ s with
    breaker := (s.breaker.isOpen (cbKey call.config) now).2
    calls := s.calls.set id call' } : ModelClients) = s'
  have hcalls : s'.calls = s.calls.set id call' := by rw [← hs']
  have hlimiter : s'.limiter = s.limiter := by rw [← hs']
  cases hq : s.limiter.queue with
  | nil =>
    rw [release_nil (hlimiter ▸ hq)]
    have hmax : s'.limiter.maxConcurrent = s.limiter.maxConcurrent := by rw [hlimiter]
    refine hheld.of_le hmax ?_ ?_
    · show s'.calls.countP (Holding ·) ≤ _
      rw [hcalls]
      omega
    · show s'.calls.countP (Busy ·) ≤ _
      rw [hcalls]
      split at hbusy <;> omega
  | cons next rest =>
    obtain ⟨waiting, hwaiting, hqueued⟩ :=
      mem_places.mp ((h.queue next).mp (hq ▸ List.mem_cons_self))
    have hqueued : waiting.phase = .queued := hqueued
    -- with a call in the queue no request loop is begun
    have hsettled : ¬Busy call' := by
      rw [← hcall', ← hp]
      split
      · exact nofun
      · next hclosed =>
        rw [attemptPhase]
        split
        · next hbegins =>
          exact absurd hqueued (hroom call hget hphase (Bool.not_eq_true _ ▸ hclosed) hbegins
            waiting (List.mem_of_getElem? hwaiting))
        · exact nofun
    have hne : next ≠ id := by
      rintro rfl
      cases hget.symm.trans hwaiting
      rw [hphase] at hqueued
      cases hqueued
    have hwaiting' : s'.calls[next]? = some waiting := by
      rw [hcalls, List.getElem?_set_ne (Ne.symm hne), hwaiting]
    have hwoken : Busy { waiting with phase := .holding } := .inl rfl
    have hidle : ¬Busy waiting := by
      rintro (hholds | hin)
      · rw [hqueued] at hholds
        cases hholds
      · rw [InLoop, hqueued] at hin
        exact hin
    have hbusy' := countP_set (p := Busy) (b := { waiting with phase := .holding }) hwaiting'
    rw [if_pos hwoken, if_neg hidle, hcalls] at hbusy'
    rw [if_neg hsettled] at hbusy
    rw [release_cons (hlimiter ▸ hq) hwaiting']
    intro _
    show JsNumber.le ((s'.calls.set next _).countP (Busy ·)) s'.limiter.maxConcurrent = true
    rw [hcalls, hlimiter]
    exact le_mono (hheld hpos) (by omega)

/-! ### Runs -/

theorem Inv.step (h : Inv 0 s) (hheld : Held s) {i : ClientInput} (hi : LeavesRoom s i) :
    Inv 0 (s.step i) := by
  have hmoves := step_moves s i
  generalize s.step i = s' at hmoves ⊢
  cases hmoves with
  | chat config => exact h.chat config
  | setMaxConcurrent max => exact h.setMaxConcurrent hi max
  | resume now hget hphase =>
    exact h.resume hget hphase fun _ _ => hheld.withinLimit h hget hphase
  | goOn i breaker hget hin hpast => exact (h.withBreaker breaker).setPhase hget hin hpast
  | idle i => exact h

theorem Held.step (hheld : Held s) (h : Inv 0 s) {i : ClientInput} (hi : LeavesRoom s i) :
    Held (s.step i) := by
  have hmoves := step_moves s i
  generalize s.step i = s' at hmoves ⊢
  cases hmoves with
  | chat config => exact hheld.chat h hi
  | setMaxConcurrent max =>
    intro hpos
    obtain ⟨call, hmem, hholding⟩ := List.countP_pos_iff.mp hpos
    exact absurd (of_decide_eq_true hholding) (hi call hmem).2
  | resume now hget hphase => exact hheld.resume h hget hphase hi
  | goOn i breaker hget hin hpast =>
    have hbreaker : Held { s with breaker } := hheld
    exact hbreaker.setPhase hget hin hpast
  | idle i => exact hheld

theorem inv_new : Inv 0 {} := by
  refine ⟨List.forall_mem_nil _, rfl, List.nodup_nil, fun id => ?_, fun hne => absurd rfl hne,
    List.forall_mem_nil _, fun ids hsub hne => ?_⟩
  · exact iff_of_false List.not_mem_nil fun hmem => nomatch mem_places.mp hmem
  · obtain ⟨id, hid⟩ := hne
    exact nomatch mem_places.mp (hsub hid)

/-- As long as no slot is taken that a request loop has given back too early, and the limiter is not
replaced under a waiting call, the limit is kept, every slot returns to its limiter, and no call
waits for nothing. -/
theorem modelCalls_orderly (inputs : List ClientInput)
    (h : Run.AllSteps step LeavesRoom {} inputs) : Run.AllStates step Orderly {} inputs := by
  have hinv : Run.AllStates step (fun s => Inv 0 s ∧ Held s) {} inputs :=
    Run.allStates_of_invariant
      (fun _ _ hs hi => ⟨Inv.step hs.1 hs.2 hi, Held.step hs.2 hs.1 hi⟩)
      ⟨inv_new, fun hpos => absurd hpos (Nat.lt_irrefl 0)⟩ h
  exact hinv.mono fun _ hs => hs.1.orderly

/-- The options of a local provider. -/
def localOptions : ModelClientOptions := ⟨"http://localhost:11434/v1", "qwen", 2, "openai"⟩

/-- One call after the other under a limit of one, the first with a second attempt. -/
theorem modelCalls_orderly_in_turn : Run.AllStates step Orderly {}
    [.setMaxConcurrent 1, .chat localOptions, .resume 0 0,
      .settle 0 (.modelError ⟨.timeout, none, none⟩) 1, .wake 0, .settle 0 .response 2,
      .chat localOptions, .resume 1 3] :=
  modelCalls_orderly _ ⟨List.forall_mem_nil _, fun _ => by decide, fun _ _ _ _ _ => by decide,
    trivial, trivial, trivial, fun _ => by decide, fun _ _ _ _ _ => by decide, trivial⟩

/-- Under a limit of one, a second call is let through while the first waits for its response. -/
theorem modelCalls_exceed_limit :
    ¬∀ inputs : List ClientInput, Run.AllStates step Orderly {} inputs := by
  intro h
  have hlast := (h [.setMaxConcurrent 1, .chat localOptions, .resume 0 0, .chat localOptions,
    .resume 1 0]).last
  obtain ⟨call, hcall, -, max, hmax, hle⟩ := hlast.bounded (by decide)
  have hover : ∀ call ∈ (Run.run step {} [.setMaxConcurrent 1, .chat localOptions, .resume 0 0,
      .chat localOptions, .resume 1 0]).calls,
      ∀ max ∈ (Run.run step {} [.setMaxConcurrent 1, .chat localOptions, .resume 0 0,
        .chat localOptions, .resume 1 0]).limits.drop call.limiter,
      JsNumber.le 2 max = false := by
    decide
  have hloops : (Run.run step {} [.setMaxConcurrent 1, .chat localOptions, .resume 0 0,
      .chat localOptions, .resume 1 0]).loops = 2 := by
    decide
  rw [hloops] at hle
  exact Bool.false_ne_true ((hover call hcall max hmax).symm.trans hle)

end KirkForge.ModelClients
