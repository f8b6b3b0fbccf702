import KirkForge.Theory.Lists
import KirkForge.Theory.Run

/-!
# The shutdown of the health server

`HealthServer.stop` (`orchestrator/src/health-server.ts`) next to the requests: which requests are
in flight, and what the calls of `stop` wait for. A call that does not run out of time lets every
request end that was in flight when it was made (`stops_drain`). It goes on as soon as they have
ended, unless another call is made before it is settled (`stops_wake`): there is one place for the
function that wakes a call, and the later one takes it.
-/

namespace KirkForge

inductive StopPhase
  /-- Neither has the last request ended nor the time. -/
  | waiting
  /-- `server.close` is called. -/
  | closing
  | resolved
  | rejected
  deriving DecidableEq

/-- A call of `stop`. -/
structure StopCall where
  /-- The requests that were in flight. -/
  awaited : List Nat := []
  /-- `drainPromise` is resolved. -/
  drained : Bool := false
  /-- `timeoutPromise` was resolved while the call was waiting. -/
  timedOut : Bool := false
  phase : StopPhase := .waiting

def StopCall.Settled (c : StopCall) : Prop := c.phase = .resolved ∨ c.phase = .rejected

/-- The call waits to be told that no request is in flight. -/
def StopCall.Pending (c : StopCall) : Prop := c.phase = .waiting ∧ c.drained = false

/-- A request is given by the number of those that were counted before it. -/
structure ServerLifecycle where
  /-- `this.server` is set. -/
  server : Bool := false
  shuttingDown : Bool := false
  inFlight : List Nat := []
  requestCount : Nat := 0
  /-- The call that `drainResolve` is of. -/
  drainResolve : Option Nat := none
  stops : List StopCall := []

inductive LifecycleEvent
  | start
  | request (method : String)
  /-- The handler of a request has returned. -/
  | finish (id : Nat)
  | stop
  | timeout (call : Nat)
  /-- The race of a call is decided. -/
  | proceed (call : Nat)
  | closed (call : Nat) (failed : Bool)

namespace ServerLifecycle

/-- A call of `stop` has come further. -/
def advance (s : ServerLifecycle) (call : Nat) (f : StopCall → StopCall) : ServerLifecycle :=
  { s with stops := s.stops.modify call f }

/-- The end of the `finally` block of the handler. -/
def wake (s : ServerLifecycle) : ServerLifecycle :=
  match s.drainResolve with
  | some call =>
    if s.shuttingDown && s.inFlight = [] then s.advance call fun c => { c with drained := true }
    else s
  | none => s

def onRequest (s : ServerLifecycle) (method : String) : ServerLifecycle :=
  if method = "OPTIONS" then s.wake
  else if method ≠ "GET" && method ≠ "HEAD" then s.wake
  else if s.shuttingDown then s.wake
  else
    { s with
      inFlight := s.inFlight ++ [s.requestCount]
      requestCount := s.requestCount + 1 }

def onStop (s : ServerLifecycle) : ServerLifecycle :=
  if !s.server then
    { s with shuttingDown := false, stops := s.stops ++ [{ phase := .resolved }] }
  else if s.inFlight = [] then
    { s with shuttingDown := true, stops := s.stops ++ [{ drained := true }] }
  else
    { s with
      shuttingDown := true
      drainResolve := some s.stops.length
      stops := s.stops ++ [{ awaited := s.inFlight }] }

def onClosed (s : ServerLifecycle) (call : Nat) (failed : Bool) : ServerLifecycle :=
  let s := { s with shuttingDown := false, drainResolve := none }
  s.advance call fun c => { c with phase := if failed then .rejected else .resolved }

/-- What does not happen leaves the state: a request ends once, a race is decided once it can be,
and `server.close` calls back once. -/
def step (s : ServerLifecycle) : LifecycleEvent → ServerLifecycle
  | .start => { s with server := true }
  | .request method => s.onRequest method
  | .finish id =>
    if id ∈ s.inFlight then { s with inFlight := s.inFlight.filter (· ≠ id) }.wake else s
  | .stop => s.onStop
  | .timeout call => s.advance call fun c =>
    if c.phase = .waiting then { c with timedOut := true } else c
  | .proceed call => s.advance call fun c =>
    if c.phase = .waiting && (c.drained || c.timedOut) then { c with phase := .closing } else c
  | .closed call failed =>
    match s.stops[call]? with
    | none => s
    | some c => if c.phase = .closing then s.onClosed call failed else s

/-! ### What a call waits for -/

/-- A call that has gone on has let the requests end that were in flight, or has run out of time. -/
def LetsEnd (s : ServerLifecycle) : Prop :=
  ∀ c ∈ s.stops, c.phase ≠ .waiting → c.timedOut = true ∨ ∀ id ∈ c.awaited, id ∉ s.inFlight

/-- A call that has not been told to go on waits for a request. -/
def Awaits (s : ServerLifecycle) : Prop :=
  ∀ c ∈ s.stops, c.Pending → ∃ id ∈ c.awaited, id ∈ s.inFlight

/-- The event is no call of `stop` while another one is not settled. -/
def Apart (s : ServerLifecycle) : LifecycleEvent → Prop
  | .stop => ∀ c ∈ s.stops, c.Settled
  | _ => True

variable {s : ServerLifecycle}

theorem exists_of_mem_advance {f : StopCall → StopCall} {call : Nat} {c : StopCall}
    (h : c ∈ (s.advance call f).stops) :
    ∃ k c', s.stops[k]? = some c' ∧ c = if call = k then f c' else c' := by
  obtain ⟨k, hk⟩ := List.mem_iff_getElem?.mp h
  rw [advance, List.getElem?_modify] at hk
  obtain ⟨c', hc', rfl⟩ := Option.map_eq_some_iff.mp hk
  exact ⟨k, c', hc', rfl⟩

/-! ### No request is cut off -/

/-- What holds of a call, given what is in flight and how many requests there were. -/
structure Fair (inFlight : List Nat) (requestCount : Nat) (c : StopCall) : Prop where
  earlier : ∀ id ∈ c.awaited, id < requestCount
  ended : c.drained = true → ∀ id ∈ c.awaited, id ∉ inFlight
  moved : c.phase ≠ .waiting → c.drained = true ∨ c.timedOut = true ∨ c.awaited = []

structure Inv (s : ServerLifecycle) : Prop where
  counted : ∀ id ∈ s.inFlight, id < s.requestCount
  fair : ∀ c ∈ s.stops, Fair s.inFlight s.requestCount c

theorem Fair.drain {inFlight : List Nat} {requestCount : Nat} {c : StopCall}
    (h : Fair inFlight requestCount c) (hnone : inFlight = []) :
    Fair inFlight requestCount { c with drained := true } where
  earlier := h.earlier
  ended _ _ _ := hnone ▸ List.not_mem_nil
  moved _ := .inl rfl

theorem Inv.advance (h : Inv s) {f : StopCall → StopCall}
    {call : Nat} (hf : ∀ c, s.stops[call]? = some c → Fair s.inFlight s.requestCount c →
      Fair s.inFlight s.requestCount (f c)) : Inv (s.advance call f) := by
  refine ⟨h.counted, fun c hc => ?_⟩
  obtain ⟨k, c', hget, rfl⟩ := exists_of_mem_advance hc
  have hfair := h.fair c' (List.mem_of_getElem? hget)
  split
  · next heq =>
    subst heq
    exact hf c' hget hfair
  · exact hfair

theorem Inv.wake (h : Inv s) : Inv s.wake := by
  unfold ServerLifecycle.wake
  split
  · split
    · next hdrained =>
      have hnone : s.inFlight = [] := of_decide_eq_true (Bool.and_eq_true_iff.mp hdrained).2
      exact h.advance fun c _ hc => hc.drain hnone
    · exact h
  · exact h

theorem Inv.request (h : Inv s) (method : String) : Inv (s.onRequest method) := by
  unfold onRequest
  split
  · exact h.wake
  split
  · exact h.wake
  split
  · exact h.wake
  · refine ⟨fun id hid => ?_, fun c hc => ⟨fun id hid => ?_, fun hdrained id hid => ?_, ?_⟩⟩
    · rcases List.mem_append.mp hid with hid | hid
      · exact Nat.lt_succ_of_lt (h.counted id hid)
      · rw [List.mem_singleton.mp hid]
        exact Nat.lt_succ_self _
    · exact Nat.lt_succ_of_lt ((h.fair c hc).earlier id hid)
    · -- a request that is new has a new number
      rw [List.mem_append, List.mem_singleton, not_or]
      exact ⟨(h.fair c hc).ended hdrained id hid, ((h.fair c hc).earlier id hid).ne⟩
    · exact (h.fair c hc).moved

theorem Inv.finish (h : Inv s) (id : Nat) : Inv (step s (.finish id)) := by
  unfold step
  dsimp only
  split
  · have hrest : Inv { s with inFlight := s.inFlight.filter (· ≠ id) } := by
      refine ⟨fun other hother => ?_, fun c hc => ⟨?_, fun hdrained other hother hmem => ?_, ?_⟩⟩
      · exact h.counted other (List.mem_of_mem_filter hother)
      · exact (h.fair c hc).earlier
      · exact (h.fair c hc).ended hdrained other hother (List.mem_of_mem_filter hmem)
      · exact (h.fair c hc).moved
    exact hrest.wake
  · exact h

theorem Inv.stop (h : Inv s) : Inv s.onStop := by
  have hnew {c : StopCall} (hc : Fair s.inFlight s.requestCount c) :
      ∀ c' ∈ s.stops ++ [c], Fair s.inFlight s.requestCount c' := by
    intro c' hc'
    rcases List.mem_append.mp hc' with hc' | hc'
    · exact h.fair c' hc'
    · rwa [List.mem_singleton.mp hc']
  unfold onStop
  split
  · exact ⟨h.counted, hnew ⟨nofun, nofun, fun _ => .inr (.inr rfl)⟩⟩
  split
  · exact ⟨h.counted, hnew ⟨nofun, nofun, fun _ => .inl rfl⟩⟩
  · exact ⟨h.counted, hnew ⟨h.counted, nofun, fun hphase => absurd rfl hphase⟩⟩

theorem Inv.step (h : Inv s) (e : LifecycleEvent) : Inv (step s e) := by
  cases e with
  | start => exact ⟨h.counted, h.fair⟩
  | request method => exact h.request method
  | finish id => exact h.finish id
  | stop => exact h.stop
  | timeout call =>
    refine h.advance fun c _ hc => ?_
    split
    · exact ⟨hc.earlier, hc.ended, fun _ => .inr (.inl rfl)⟩
    · exact hc
  | proceed call =>
    refine h.advance fun c _ hc => ?_
    split
    · next hgo =>
      rw [Bool.and_eq_true, Bool.or_eq_true] at hgo
      exact ⟨hc.earlier, hc.ended, fun _ => hgo.2.imp_right .inl⟩
    · exact hc
  | closed call failed =>
    unfold ServerLifecycle.step
    dsimp only
    split
    · exact h
    · split
      · next c hget hclosing =>
        have hkept : Inv { s with shuttingDown := false, drainResolve := none } :=
          ⟨h.counted, h.fair⟩
        refine hkept.advance fun c' hget' hc' => ⟨hc'.earlier, hc'.ended, fun _ => hc'.moved ?_⟩
        rw [← Option.some.inj (hget.symm.trans hget'), hclosing]
        exact nofun
      · exact h

theorem Inv.letsEnd (h : Inv s) : LetsEnd s := by
  intro c hc hphase
  have hfair := h.fair c hc
  rcases hfair.moved hphase with hdrained | htime | hnone
  · exact .inr (hfair.ended hdrained)
  · exact .inl htime
  · rw [hnone]
    exact .inr fun _ hid => absurd hid List.not_mem_nil

/-- In every run of requests and calls of `stop`, also overlapping ones, a call goes on to close the
server only if every request that was in flight when it was made has ended, or its time is over. -/
theorem stops_drain (es : List LifecycleEvent) : Run.AllStates step LetsEnd {} es := by
  have hinit : Inv {} := ⟨fun _ h => absurd h List.not_mem_nil, fun _ h => absurd h List.not_mem_nil⟩
  exact (Run.allStates_of_forall (fun s e hs => hs.step e) hinit).mono fun s hs => hs.letsEnd

/-! ### No call is forgotten -/

/-- At most the last call is not settled, and while it waits to be told, the place is its own and
only requests are in flight that it waits for. -/
structure Sole (s : ServerLifecycle) : Prop where
  settled : ∀ k c, s.stops[k]? = some c → k + 1 < s.stops.length → c.Settled
  waits : ∀ k c, s.stops[k]? = some c → c.Pending →
    s.shuttingDown = true ∧ s.drainResolve = some k ∧ ∀ id ∈ s.inFlight, id ∈ c.awaited

/-- A call that waits to be told has something to wait for. -/
def Busy (s : ServerLifecycle) : Prop := ∀ c ∈ s.stops, c.Pending → s.inFlight ≠ []

theorem Sole.advance (h : Sole s) {f : StopCall → StopCall} {call : Nat}
    (hsettled : ∀ c, c.Settled → (f c).Settled) (hpending : ∀ c, (f c).Pending → c.Pending)
    (hawaited : ∀ c, (f c).awaited = c.awaited) : Sole (s.advance call f) where
  settled k c hget hlast := by
    rw [ServerLifecycle.advance, List.getElem?_modify] at hget
    rw [ServerLifecycle.advance, List.length_modify] at hlast
    obtain ⟨c', hc', rfl⟩ := Option.map_eq_some_iff.mp hget
    have hkept := h.settled k c' hc' hlast
    split
    · exact hsettled c' hkept
    · exact hkept
  waits k c hget hwaits := by
    rw [ServerLifecycle.advance, List.getElem?_modify] at hget
    obtain ⟨c', hc', rfl⟩ := Option.map_eq_some_iff.mp hget
    split at hwaits
    · rw [if_pos ‹_›, hawaited]
      exact h.waits k c' hc' (hpending c' hwaits)
    · rw [if_neg ‹_›]
      exact h.waits k c' hc' hwaits

theorem Busy.advance (h : Busy s) {f : StopCall → StopCall} {call : Nat}
    (hpending : ∀ c, (f c).Pending → c.Pending) : Busy (s.advance call f) := by
  intro c hc hwaits
  obtain ⟨k, c', hget, rfl⟩ := exists_of_mem_advance hc
  have hmem := List.mem_of_getElem? hget
  split at hwaits
  · exact h c' hmem (hpending c' hwaits)
  · exact h c' hmem hwaits

/-- Only the last call is not settled. -/
theorem Sole.eq_last (h : Sole s) {k k' : Nat} {c c' : StopCall} (hget : s.stops[k]? = some c)
    (hget' : s.stops[k']? = some c') (hopen : ¬c.Settled) (hopen' : ¬c'.Settled) : k = k' := by
  have hlength := (List.getElem?_eq_some_iff.mp hget).1
  have hlength' := (List.getElem?_eq_some_iff.mp hget').1
  have hlast : ¬k + 1 < s.stops.length := fun hlt => hopen (h.settled k c hget hlt)
  have hlast' : ¬k' + 1 < s.stops.length := fun hlt => hopen' (h.settled k' c' hget' hlt)
  omega

theorem not_settled_of_pending {c : StopCall} (h : c.Pending) :
    ¬c.Settled := by
  rw [StopCall.Settled, h.1]
  exact fun hor => hor.elim nofun nofun

theorem Sole.wake (h : Sole s) : Sole s.wake ∧ Busy s.wake := by
  unfold ServerLifecycle.wake
  split
  · next call hcall =>
    have hmine {k : Nat} {c : StopCall} (hget : s.stops[k]? = some c) (hc : c.Pending) :
        call = k := Option.some.inj (hcall.symm.trans (h.waits k c hget hc).2.1)
    split
    · next hdrained =>
      refine ⟨h.advance (fun _ hc => hc) (fun c hc => absurd hc.2 Bool.true_eq_false.mp)
        (fun _ => rfl), fun c hc hwaits => ?_⟩
      obtain ⟨k, c', hget, rfl⟩ := exists_of_mem_advance hc
      split at hwaits
      · exact absurd hwaits.2 Bool.true_eq_false.mp
      · next hother => exact absurd (hmine hget hwaits) hother
    · next hdrained =>
      refine ⟨h, fun c hc hwaits hnone => hdrained ?_⟩
      obtain ⟨k, hget⟩ := List.mem_iff_getElem?.mp hc
      rw [(h.waits k c hget hwaits).1, hnone]
      rfl
  · next hnone =>
    refine ⟨h, fun c hc hwaits => ?_⟩
    obtain ⟨k, hget⟩ := List.mem_iff_getElem?.mp hc
    exact nomatch hnone.symm.trans (h.waits k c hget hwaits).2.1

theorem Sole.request (h : Sole s) (method : String) :
    Sole (s.onRequest method) ∧ Busy (s.onRequest method) := by
  unfold onRequest
  split
  · exact h.wake
  split
  · exact h.wake
  split
  · exact h.wake
  · next hopen =>
    have hnone {k : Nat} {c : StopCall} (hget : s.stops[k]? = some c) : ¬c.Pending :=
      fun hc => hopen (h.waits k c hget hc).1
    refine ⟨⟨h.settled, fun k c hget hc => absurd hc (hnone hget)⟩, fun c hc hwaits => ?_⟩
    obtain ⟨k, hget⟩ := List.mem_iff_getElem?.mp hc
    exact absurd hwaits (hnone hget)

theorem Sole.finish (h : Sole s) (hbusy : Busy s) (id : Nat) :
    Sole (ServerLifecycle.step s (.finish id)) ∧ Busy (ServerLifecycle.step s (.finish id)) := by
  unfold ServerLifecycle.step
  dsimp only
  split
  · have hrest : Sole { s with inFlight := s.inFlight.filter (· ≠ id) } := by
      refine ⟨h.settled, fun k c hget hc => ?_⟩
      obtain ⟨hdown, hplace, hawaited⟩ := h.waits k c hget hc
      exact ⟨hdown, hplace, fun other hother => hawaited other (List.mem_of_mem_filter hother)⟩
    exact hrest.wake
  · exact ⟨h, hbusy⟩

/-- A call is made when all others are settled. -/
theorem sole_stop (hsettled : ∀ c ∈ s.stops, c.Settled) :
    Sole s.onStop ∧ Busy s.onStop := by
  have hnew {s' : ServerLifecycle} {c : StopCall} (hstops : s'.stops = s.stops ++ [c])
      (hc : c.Pending → s'.shuttingDown = true ∧ s'.drainResolve = some s.stops.length ∧
        s'.inFlight ≠ [] ∧ ∀ id ∈ s'.inFlight, id ∈ c.awaited) : Sole s' ∧ Busy s' := by
    have hcases {k : Nat} {c' : StopCall} (hget : s'.stops[k]? = some c') :
        c'.Settled ∨ k = s.stops.length ∧ c' = c := by
      rw [hstops, List.getElem?_append] at hget
      split at hget
      · exact .inl (hsettled c' (List.mem_of_getElem? hget))
      · next hge =>
        rw [List.getElem?_singleton] at hget
        split at hget
        · next hzero =>
          exact .inr ⟨by omega, (Option.some.inj hget).symm⟩
        · cases hget
    refine ⟨⟨fun k c' hget hlast => ?_, fun k c' hget hwaits => ?_⟩, fun c' hmem hwaits => ?_⟩
    · refine (hcases hget).resolve_right fun hk => ?_
      rw [hstops, List.length_append, List.length_singleton, hk.1] at hlast
      exact Nat.lt_irrefl _ hlast
    · obtain ⟨rfl, rfl⟩ := (hcases hget).resolve_left (not_settled_of_pending hwaits)
      obtain ⟨hdown, hplace, -, hawaited⟩ := hc hwaits
      exact ⟨hdown, hplace, hawaited⟩
    · obtain ⟨k, hget⟩ := List.mem_iff_getElem?.mp hmem
      obtain ⟨-, rfl⟩ := (hcases hget).resolve_left (not_settled_of_pending hwaits)
      exact (hc hwaits).2.2.1
  unfold onStop
  split
  · exact hnew rfl fun hc => nomatch hc.1
  split
  · exact hnew rfl fun hc => nomatch hc.2
  · next hflight => exact hnew rfl fun _ => ⟨rfl, rfl, hflight, fun _ hid => hid⟩

theorem Sole.closed (h : Sole s) (hbusy : Busy s) (call : Nat) (failed : Bool) :
    Sole (ServerLifecycle.step s (.closed call failed)) ∧
      Busy (ServerLifecycle.step s (.closed call failed)) := by
  unfold ServerLifecycle.step
  dsimp only
  split
  · exact ⟨h, hbusy⟩
  split
  · next c hget hclosing =>
    have hopen : ¬c.Settled := by
      rw [StopCall.Settled, hclosing]
      exact fun hor => hor.elim nofun nofun
    -- the call that is closing is the only one that is not settled, and it waits no more
    have hnone {k : Nat} {c' : StopCall} (hget' : s.stops[k]? = some c') : ¬c'.Pending := by
      intro hc'
      obtain rfl := h.eq_last hget hget' hopen (not_settled_of_pending hc')
      rw [Option.some.inj (hget.symm.trans hget'), hc'.1] at hclosing
      cases hclosing
    have hkept : Sole { s with shuttingDown := false, drainResolve := none } :=
      ⟨h.settled, fun k c' hget' hc' => absurd hc' (hnone hget')⟩
    have hidle : Busy { s with shuttingDown := false, drainResolve := none } := fun c' hmem hc' => by
      obtain ⟨k, hget'⟩ := List.mem_iff_getElem?.mp hmem
      exact absurd hc' (hnone hget')
    have hphase (c : StopCall) :
        ¬StopCall.Pending { c with phase := if failed then .rejected else .resolved } := by
      cases failed <;> exact fun hc => nomatch hc.1
    refine ⟨hkept.advance (fun c' _ => ?_) (fun c' hc' => absurd hc' (hphase c')) (fun _ => rfl),
      hidle.advance fun c' hc' => absurd hc' (hphase c')⟩
    cases failed
    · exact .inl rfl
    · exact .inr rfl
  · exact ⟨h, hbusy⟩

theorem Sole.step (h : Sole s) (hbusy : Busy s) {e : LifecycleEvent} (he : Apart s e) :
    Sole (ServerLifecycle.step s e) ∧ Busy (ServerLifecycle.step s e) := by
  cases e with
  | start => exact ⟨⟨h.settled, h.waits⟩, hbusy⟩
  | request method => exact h.request method
  | finish id => exact h.finish hbusy id
  | stop => exact sole_stop he
  | timeout call =>
    have hpending (c : StopCall) :
        StopCall.Pending (if c.phase = .waiting then { c with timedOut := true } else c) →
          c.Pending := by
      split <;> exact id
    refine ⟨h.advance (fun c hc => ?_) hpending (fun c => ?_), hbusy.advance hpending⟩
    · split <;> exact hc
    · split <;> rfl
  | proceed call =>
    have hpending (c : StopCall) : StopCall.Pending
        (if c.phase = .waiting && (c.drained || c.timedOut) then { c with phase := .closing }
          else c) → c.Pending := by
      split
      · exact fun hc => nomatch hc.1
      · exact id
    refine ⟨h.advance (fun c hc => ?_) hpending (fun c => ?_), hbusy.advance hpending⟩
    · split
      · next hgo =>
        have hwaiting : c.phase = .waiting := of_decide_eq_true (Bool.and_eq_true_iff.mp hgo).1
        rw [StopCall.Settled, hwaiting] at hc
        exact hc.elim nofun nofun
      · exact hc
    · split <;> rfl
  | closed call failed => exact h.closed hbusy call failed

theorem Sole.awaits (h : Sole s) (hbusy : Busy s) : Awaits s := by
  intro c hc hwaits
  obtain ⟨k, hget⟩ := List.mem_iff_getElem?.mp hc
  obtain ⟨id, hid⟩ := List.exists_mem_of_ne_nil _ (hbusy c hc hwaits)
  exact ⟨id, (h.waits k c hget hwaits).2.2 id hid, hid⟩

/-- As long as no call of `stop` is made while another one is not settled, a call that waits to be
told has a request to wait for: the last one to end tells it. -/
theorem stops_wake (es : List LifecycleEvent) (hes : Run.AllSteps step Apart {} es) :
    Run.AllStates step Awaits {} es := by
  have hinit : Sole {} ∧ Busy {} := ⟨⟨nofun, nofun⟩, fun _ h => absurd h List.not_mem_nil⟩
  have hrun := Run.allStates_of_invariant (I := fun s => Sole s ∧ Busy s)
    (fun s e hs he => hs.1.step hs.2 he) hinit hes
  exact hrun.mono fun s hs => hs.1.awaits hs.2

theorem stops_wake_one : Run.AllStates step Awaits {}
    [.start, .request "GET", .stop, .finish 0, .proceed 0, .closed 0 false] :=
  stops_wake _ ⟨trivial, trivial, nofun, trivial, trivial, trivial, trivial⟩

/-- The place of the first of two calls is taken: it waits although no request is in flight. -/
example : ¬Awaits (Run.run step {} [.start, .request "GET", .stop, .stop, .finish 0]) := by
  intro h
  obtain ⟨id, -, hid⟩ := h { awaited := [0] } List.mem_cons_self ⟨rfl, rfl⟩
  exact nomatch hid

end ServerLifecycle

end KirkForge
