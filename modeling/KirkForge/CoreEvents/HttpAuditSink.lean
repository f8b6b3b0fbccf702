import KirkForge.CoreEvents.AuditEvent
import KirkForge.Theory.Lists
import KirkForge.Theory.Run
import Mathlib.Data.List.Perm.Basic

/-!
# The HTTP audit sink

`HttpAuditSink` (`core-events/src/audit-sinks/http.ts`). A flush takes the buffered events, seals
them and hands them to `fetch`; the sink goes on while the answer is awaited, so that there may be
more than one request on its way.
-/

namespace KirkForge

structure HttpEnv where
  crypto : Crypto
  hmacKey : Option String := none

structure HttpAuditSinkConfig where
  flushInterval : JsNumber := 50

structure HttpAuditSink where
  buffer : List AuditEvent := []
  flushSize : JsNumber
  lastHash : String

/-- How `fetch` ends: it throws, also after the timeout, or there is a response. -/
inductive PostOutcome
  | networkFailure
  | response (status : Nat)
  deriving DecidableEq

/-- `res.ok`, and the value that `flush` returns. -/
def PostOutcome.ok : PostOutcome → Bool
  | networkFailure => false
  | response status => 200 ≤ status && status ≤ 299

/-- A request: the events that were taken from the buffer, the `events` of its body, and how it
ended. -/
structure Post where
  events : List AuditEvent
  body : List AuditEvent
  outcome : Option PostOutcome := none

namespace Post

def delivered (post : Post) : Bool := post.outcome.any PostOutcome.ok

def pending (post : Post) : Bool := post.outcome.isNone

def failed (post : Post) : Bool := post.outcome = some .networkFailure

end Post

namespace HttpAuditSink

variable (env : HttpEnv)

def genesis : String := initialHash env.crypto env.hmacKey

def create (config : HttpAuditSinkConfig) : HttpAuditSink where
  flushSize := config.flushInterval
  lastHash := genesis env

/-- `flush` up to the call of `fetch`. -/
def flush (sink : HttpAuditSink) : HttpAuditSink × Option Post :=
  if sink.buffer.length = 0 then (sink, none)
  else
    let events := sink.buffer
    let body := HashChain.markFrom AuditEvent.chainHash
      (AuditEvent.sealed env.crypto env.hmacKey) sink.lastHash events
    let lastHash := HashChain.lastTag AuditEvent.chainHash sink.lastHash body
    ({ sink with buffer := [], lastHash }, some { events, body })

def write (event : AuditEvent) (sink : HttpAuditSink) : HttpAuditSink × Option Post :=
  let sink := { sink with buffer := sink.buffer ++ [event] }
  if JsNumber.le sink.flushSize sink.buffer.length then flush env sink else (sink, none)

/-- `flush` from the end of `fetch` on: only a request that threw is buffered again. -/
def settle (post : Post) (outcome : PostOutcome) (sink : HttpAuditSink) : HttpAuditSink :=
  match outcome with
  | .networkFailure => { sink with buffer := post.events ++ sink.buffer }
  | .response _ => sink

end HttpAuditSink

/-! ### The sink over time -/

/-- A sink with the requests it has sent and the events it was handed. -/
structure HttpLog where
  sink : HttpAuditSink
  posts : List Post := []
  written : List AuditEvent := []

inductive HttpInput
  | write (event : AuditEvent)
  | flush
  /-- The request of this number ends, if it is still on its way. -/
  | settle (i : Nat) (outcome : PostOutcome)

namespace HttpLog

open HttpAuditSink HashChain AuditEvent

variable (env : HttpEnv)

def init (config : HttpAuditSinkConfig) : HttpLog := { sink := create env config }

def send (s : HttpLog) (r : HttpAuditSink × Option Post) : HttpLog :=
  { s with sink := r.1, posts := s.posts ++ r.2.toList }

def step (s : HttpLog) : HttpInput → HttpLog
  | .write event =>
    { s with written := s.written ++ [event] }.send (HttpAuditSink.write env event s.sink)
  | .flush => s.send (HttpAuditSink.flush env s.sink)
  | .settle i outcome =>
    match s.posts[i]? with
    | none => s
    | some post =>
      if post.pending then
        { s with
          sink := HttpAuditSink.settle post outcome s.sink
          posts := s.posts.set i { post with outcome := some outcome } }
      else s

/-- The events of the requests that were answered with success, in the order of sending. -/
def delivered (s : HttpLog) : List AuditEvent := (s.posts.filter Post.delivered).flatMap Post.body

/-- The events of the requests that are on their way. -/
def pending (s : HttpLog) : List AuditEvent := (s.posts.filter Post.pending).flatMap Post.body

/-- Every event is delivered, on its way or buffered, and once the answers are there, what was
delivered is one chain. -/
structure Lossless (s : HttpLog) : Prop where
  kept : (s.written.map untagged).Perm
    ((delivered s ++ pending s ++ s.sink.buffer).map untagged)
  chained : (∀ post ∈ s.posts, post.pending = false) →
    Verifies env.crypto env.hmacKey (genesis env) (delivered s)

/-- No request is answered with a failure status, and none is delivered that was sent after one that
threw. -/
def Sound (s : HttpLog) : HttpInput → Prop
  | .settle i outcome => ∀ post, s.posts[i]? = some post → post.pending = true →
      match outcome with
      | .networkFailure => ∀ later ∈ s.posts.drop (i + 1), later.delivered = false
      | .response _ => outcome.ok = true ∧ ∀ earlier ∈ s.posts.take i, earlier.failed = false
  | _ => True

end HttpLog

end KirkForge

/-!
## No loss over HTTP

The bodies of all requests, whatever becomes of them, are one chain: the hash moves on when a batch
is sealed and is not set back. What was delivered is a chain where it is an initial part of them.
-/

namespace KirkForge.HttpLog

open HttpAuditSink HashChain AuditEvent

variable {env : HttpEnv}

/-! ### Requests -/

theorem untagged_markFrom (crypto : Crypto) (hmacKey : Option String) (p : String)
    (events : List AuditEvent) :
    (markFrom chainHash (sealed crypto hmacKey) p events).map untagged = events.map untagged := by
  induction events generalizing p with
  | nil => rfl
  | cons e events ih => exact congrArg (e.untagged :: ·) (ih _)

theorem delivered_of_pending {post : Post} (h : post.pending = true) : post.delivered = false := by
  rw [Post.pending, Option.isNone_iff_eq_none] at h
  simp [Post.delivered, h]

/-! ### The invariant -/

/-- No request was refused, and none was delivered after one that threw. -/
structure Inv (env : HttpEnv) (s : HttpLog) : Prop where
  chain : Verifies env.crypto env.hmacKey (genesis env) (s.posts.flatMap Post.body)
  lastHash : lastTag chainHash (genesis env) (s.posts.flatMap Post.body) = s.sink.lastHash
  bodies : ∀ post ∈ s.posts, post.body.map untagged = post.events.map untagged
  answered : ∀ post ∈ s.posts,
    post.pending = true ∨ post.delivered = true ∨ post.failed = true
  order : s.posts.Pairwise fun earlier later => later.delivered = true → earlier.failed = false
  kept : (s.written.map untagged).Perm
    ((delivered s ++ pending s ++ s.sink.buffer).map untagged)

theorem Inv.lossless {s : HttpLog} (h : Inv env s) : Lossless env s where
  kept := h.kept
  chained hanswered := by
    have horder : s.posts.Pairwise fun earlier later =>
        later.delivered = true → earlier.delivered = true := by
      refine h.order.imp_of_mem fun {earlier later} hearlier _ hfailed hlater => ?_
      have hthree := h.answered earlier hearlier
      simpa [hanswered earlier hearlier, hfailed hlater] using hthree
    obtain ⟨back, hback⟩ := Lists.exists_eq_filter_append horder
    have hchain := h.chain
    rw [hback, List.flatMap_append, Verifies, linked_append] at hchain
    exact hchain.1

/-- A call hands an event to the sink. -/
def push (s : HttpLog) (event : AuditEvent) : HttpLog :=
  { s with
    sink := { s.sink with buffer := s.sink.buffer ++ [event] }
    written := s.written ++ [event] }

theorem push_inv {s : HttpLog} (h : Inv env s) (event : AuditEvent) : Inv env (push s event) where
  chain := h.chain
  lastHash := h.lastHash
  bodies := h.bodies
  answered := h.answered
  order := h.order
  kept := by
    have hkept := h.kept.append_right [event.untagged]
    simpa [push, delivered, pending] using hkept

theorem flush_inv {s : HttpLog} (h : Inv env s) :
    Inv env (s.send (HttpAuditSink.flush env s.sink)) := by
  rw [HttpAuditSink.flush]
  split
  · simpa [send] using h
  dsimp only
  set body := markFrom chainHash (sealed env.crypto env.hmacKey) s.sink.lastHash s.sink.buffer
    with hbody
  have hlinked : Linked (chainHashOf env.crypto env.hmacKey) chainHash s.sink.lastHash body := by
    apply linked_markFrom
    intro p x
    rfl
  have huntagged : body.map untagged = s.sink.buffer.map untagged := untagged_markFrom ..
  refine ⟨?_, ?_, ?_, ?_, ?_, ?_⟩
  · simp only [send, Option.toList_some, List.flatMap_append, List.flatMap_singleton]
    rw [Verifies, linked_append, h.lastHash]
    exact ⟨h.chain, hlinked⟩
  · simp only [send, Option.toList_some, List.flatMap_append, List.flatMap_singleton,
      lastTag_append, h.lastHash]
  · exact List.forall_mem_append.mpr ⟨h.bodies, List.forall_mem_singleton.mpr huntagged⟩
  · exact List.forall_mem_append.mpr ⟨h.answered, List.forall_mem_singleton.mpr (.inl rfl)⟩
  · refine List.pairwise_append.mpr ⟨h.order, List.pairwise_singleton _ _, fun _ _ later hlater => ?_⟩
    rw [List.mem_singleton.mp hlater]
    rintro ⟨⟩
  · have hpending : Post.pending { events := s.sink.buffer, body } = true := rfl
    have hkept := h.kept
    simp only [delivered, pending, send, Option.toList_some, List.filter_append,
      List.filter_singleton, hpending, delivered_of_pending hpending, List.flatMap_append,
      List.map_append, cond_true, cond_false, List.flatMap_singleton, List.append_nil,
      List.append_assoc, huntagged] at hkept ⊢
    exact hkept

/-- The events of a request that is over are delivered, or back in the buffer if it threw. -/
theorem settle_kept {s : HttpLog} {front back : List Post} {post : Post} {outcome : PostOutcome}
    (hposts : s.posts = front ++ post :: back) (hpending : post.pending = true)
    (hbody : post.body.map untagged = post.events.map untagged)
    (hok : outcome.ok = true ∨ outcome = .networkFailure) :
    ((delivered s ++ pending s ++ s.sink.buffer).map untagged).Perm
      ((delivered { s with posts := front ++ { post with outcome := some outcome } :: back } ++
        pending { s with posts := front ++ { post with outcome := some outcome } :: back } ++
        (HttpAuditSink.settle post outcome s.sink).buffer).map untagged) := by
  set post' := { post with outcome := some outcome }
  have hpending' : post'.pending = false := rfl
  have hdelivered' : post'.delivered = outcome.ok := rfl
  have hbody' : post'.body.map untagged = post.events.map untagged := hbody
  simp only [delivered, pending, hposts, List.filter_append, List.filter_cons, hpending, hpending',
    hdelivered', delivered_of_pending hpending, List.flatMap_append, List.map_append,
    List.flatMap_cons, hbody, if_true, Bool.false_eq_true, if_false]
  classical
  cases outcome with
  | networkFailure =>
    simp only [PostOutcome.ok, Bool.false_eq_true, if_false, HttpAuditSink.settle,
      List.map_append, List.perm_iff_count, List.count_append]
    intro e
    omega
  | response status =>
    have hok := hok.resolve_right nofun
    simp only [hok, if_true, HttpAuditSink.settle, List.flatMap_cons, List.map_append, hbody',
      List.perm_iff_count, List.count_append]
    intro e
    omega

theorem settle_inv {s : HttpLog} {i : Nat} {outcome : PostOutcome} (h : Inv env s)
    (hi : Sound s (.settle i outcome)) : Inv env (step env s (.settle i outcome)) := by
  rw [step]
  split
  · exact h
  next post hpost =>
  split
  swap
  · exact h
  next hpending =>
  have hsound := hi post hpost hpending
  obtain ⟨front, back, hposts, rfl⟩ := Lists.exists_split hpost
  have hset : s.posts.set front.length { post with outcome := some outcome } =
      front ++ { post with outcome := some outcome } :: back := by simp [hposts]
  have hbody : post.body.map untagged = post.events.map untagged := h.bodies post (by simp [hposts])
  have hflat : (front ++ { post with outcome := some outcome } :: back).flatMap Post.body =
      s.posts.flatMap Post.body := by simp [hposts]
  have hsettle : (HttpAuditSink.settle post outcome s.sink).lastHash = s.sink.lastHash := by
    cases outcome <;> rfl
  have hok : outcome.ok = true ∨ outcome = .networkFailure := by
    cases outcome with
    | networkFailure => exact .inr rfl
    | response status => exact .inl hsound.1
  rw [hset]
  refine ⟨by simpa only [hflat] using h.chain, by simpa only [hflat, hsettle] using h.lastHash,
    Lists.forall_mem_replace (hposts ▸ h.bodies) hbody,
    Lists.forall_mem_replace (hposts ▸ h.answered) (.inr ?_),
    Lists.pairwise_replace (hposts ▸ h.order) ?_ ?_,
    h.kept.trans (settle_kept hposts hpending hbody hok)⟩
  · rcases hok with hok | rfl
    · exact .inl hok
    · exact .inr rfl
  · intro earlier hearlier hdelivered
    cases outcome with
    | networkFailure => exact nomatch hdelivered
    | response status => exact hsound.2 earlier (by simpa [hposts] using hearlier)
  · intro later hlater hdelivered
    cases outcome with
    | networkFailure =>
      have hnot := hsound later (by simpa [hposts] using hlater)
      simp [hnot] at hdelivered
    | response status => rfl

theorem step_write (s : HttpLog) (event : AuditEvent) :
    step env s (.write event) =
      if JsNumber.le s.sink.flushSize (s.sink.buffer.length + 1 : Nat) then
        (push s event).send (HttpAuditSink.flush env (push s event).sink)
      else push s event := by
  simp only [step, HttpAuditSink.write, List.length_append, List.length_singleton]
  split
  · rfl
  · simp [send, push]

theorem step_inv {s : HttpLog} {i : HttpInput} (h : Inv env s) (hi : Sound s i) :
    Inv env (step env s i) := by
  cases i with
  | write event =>
    have hpush := push_inv h event
    rw [step_write]
    split
    · exact flush_inv hpush
    · exact hpush
  | flush => exact flush_inv h
  | settle i outcome => exact settle_inv h hi

theorem init_inv (config : HttpAuditSinkConfig) : Inv env (init env config) where
  chain := trivial
  lastHash := rfl
  bodies := List.forall_mem_nil _
  answered := List.forall_mem_nil _
  order := .nil
  kept := .refl _

/-- As long as no request is refused and none is delivered after one that threw, nothing is lost. -/
theorem http_log_lossless (env : HttpEnv) (config : HttpAuditSinkConfig) (inputs : List HttpInput)
    (h : Run.AllSteps (step env) Sound (init env config) inputs) :
    Run.AllStates (step env) (Lossless env) (init env config) inputs :=
  (Run.allStates_of_invariant (fun _ _ hs hi => step_inv hs hi) (init_inv config) h).mono
    fun _ hs => hs.lossless

/-- A batch that is delivered and one that throws and stays in the buffer. -/
theorem http_log_lossless_run : Run.AllStates (step { crypto := transparent })
    (Lossless { crypto := transparent }) (init { crypto := transparent } { flushInterval := 1 })
    [.write blankEvent, .settle 0 (.response 200), .write blankEvent,
      .settle 1 .networkFailure] := by
  apply http_log_lossless
  refine ⟨trivial, ?_, trivial, ?_, trivial⟩
  · exact fun _ _ _ => ⟨rfl, List.forall_mem_nil _⟩
  · exact fun _ _ _ => List.forall_mem_nil _

/-- A batch that the server answers with 500 is neither delivered nor buffered. -/
theorem http_log_loses_batch :
    ¬∀ (env : HttpEnv) (config : HttpAuditSinkConfig) (inputs : List HttpInput),
      Run.AllStates (step env) (Lossless env) (init env config) inputs := by
  intro h
  have hlast := (h { crypto := transparent } { flushInterval := 1 }
    [.write blankEvent, .settle 0 (.response 500)]).last
  have hlength := hlast.kept.length_eq
  exact absurd hlength (by decide)

end KirkForge.HttpLog

/-!
## Where the events are

Whatever becomes of the requests, every event is delivered, refused, on its way or buffered. What
was delivered replays only if no request was delivered behind one that was not.
-/

namespace KirkForge

/-- The server has answered, and not with success. -/
def Post.refused (post : Post) : Bool := post.outcome.any fun outcome =>
  outcome ≠ .networkFailure && !outcome.ok

namespace HttpLog

open HttpAuditSink HashChain AuditEvent

variable {env : HttpEnv} {s : HttpLog}

/-- The events of the requests that the server has refused. -/
def refused (s : HttpLog) : List AuditEvent := (s.posts.filter Post.refused).flatMap Post.body

/-- Where the events are that the sink was handed, and the chain of all that it has sent. -/
structure Accounted (env : HttpEnv) (s : HttpLog) : Prop where
  written : (s.written.map untagged).Perm
    ((delivered s ++ refused s ++ pending s ++ s.sink.buffer).map untagged)
  chain : Verifies env.crypto env.hmacKey (genesis env) (s.posts.flatMap Post.body)
  nonempty : ∀ post ∈ s.posts, post.body ≠ []

/-- A delivered request has none in front of it that is not. -/
def WithoutGap (s : HttpLog) : Prop :=
  s.posts.Pairwise fun earlier later => later.delivered = true → earlier.delivered = true

/-! ### The invariant -/

structure Kept (env : HttpEnv) (s : HttpLog) : Prop extends Accounted env s where
  lastHash : lastTag chainHash (genesis env) (s.posts.flatMap Post.body) = s.sink.lastHash
  bodies : ∀ post ∈ s.posts, post.body.map untagged = post.events.map untagged

theorem refused_of_pending {post : Post} (h : post.pending = true) : post.refused = false := by
  rw [Post.pending, Option.isNone_iff_eq_none] at h
  simp [Post.refused, h]

theorem Kept.push (h : Kept env s) (event : AuditEvent) : Kept env (push s event) where
  written := by
    have hwritten := h.written.append_right [event.untagged]
    simpa [HttpLog.push, delivered, refused, pending] using hwritten
  chain := h.chain
  nonempty := h.nonempty
  lastHash := h.lastHash
  bodies := h.bodies

theorem Kept.flush (h : Kept env s) : Kept env (s.send (HttpAuditSink.flush env s.sink)) := by
  rw [HttpAuditSink.flush]
  split
  · simpa [send] using h
  next hbuffer =>
  dsimp only
  set body := markFrom chainHash (sealed env.crypto env.hmacKey) s.sink.lastHash s.sink.buffer
    with hbody
  have hlinked : Linked (chainHashOf env.crypto env.hmacKey) chainHash s.sink.lastHash body := by
    apply linked_markFrom
    intro p x
    rfl
  have huntagged : body.map untagged = s.sink.buffer.map untagged := untagged_markFrom ..
  have hnonempty : body ≠ [] := by
    intro hnil
    rw [hnil, List.map_nil, eq_comm, List.map_eq_nil_iff] at huntagged
    exact hbuffer (List.length_eq_zero_iff.mpr huntagged)
  have hflat : (s.posts ++ [Post.mk s.sink.buffer body none]).flatMap Post.body =
      s.posts.flatMap Post.body ++ body := by
    rw [List.flatMap_append, List.flatMap_singleton]
  refine ⟨⟨?_, ?_, ?_⟩, ?_, ?_⟩
  · have hpending : Post.pending { events := s.sink.buffer, body } = true := rfl
    have hwritten := h.written
    simp only [delivered, refused, pending, send, Option.toList_some, List.filter_append,
      List.filter_singleton, hpending, delivered_of_pending hpending, refused_of_pending hpending,
      List.flatMap_append, List.map_append, cond_true, cond_false, List.flatMap_singleton,
      List.append_nil, List.append_assoc, huntagged] at hwritten ⊢
    exact hwritten
  · show Verifies _ _ _ ((s.posts ++ [_]).flatMap Post.body)
    rw [hflat, Verifies, linked_append, h.lastHash]
    exact ⟨h.chain, hlinked⟩
  · exact List.forall_mem_append.mpr ⟨h.nonempty, List.forall_mem_singleton.mpr hnonempty⟩
  · show lastTag _ _ ((s.posts ++ [_]).flatMap Post.body) = _
    rw [hflat, lastTag_append, h.lastHash]
    rfl
  · exact List.forall_mem_append.mpr ⟨h.bodies, List.forall_mem_singleton.mpr huntagged⟩

/-- The events of a request that is over are delivered, refused, or back in the buffer. -/
theorem settle_perm {front back : List Post} {post : Post} {outcome : PostOutcome}
    (hposts : s.posts = front ++ post :: back) (hpending : post.pending = true)
    (hbody : post.body.map untagged = post.events.map untagged) :
    ((delivered s ++ refused s ++ pending s ++ s.sink.buffer).map untagged).Perm
      ((delivered { s with posts := front ++ { post with outcome := some outcome } :: back } ++
        refused { s with posts := front ++ { post with outcome := some outcome } :: back } ++
        pending { s with posts := front ++ { post with outcome := some outcome } :: back } ++
        (HttpAuditSink.settle post outcome s.sink).buffer).map untagged) := by
  set post' := { post with outcome := some outcome }
  have hpending' : post'.pending = false := rfl
  have hdelivered' : post'.delivered = outcome.ok := rfl
  have hrefused' : post'.refused = (outcome ≠ .networkFailure && !outcome.ok) := rfl
  have hbody' : post'.body.map untagged = post.events.map untagged := hbody
  simp only [delivered, refused, pending, hposts, List.filter_append, List.filter_cons, hpending,
    hpending', hdelivered', hrefused', delivered_of_pending hpending, refused_of_pending hpending,
    List.flatMap_append, List.map_append, List.flatMap_cons, hbody, if_true, Bool.false_eq_true,
    if_false]
  classical
  cases outcome with
  | networkFailure =>
    simp only [PostOutcome.ok, ne_eq, not_true_eq_false, decide_false, Bool.false_and,
      Bool.false_eq_true, if_false, HttpAuditSink.settle, List.map_append, List.perm_iff_count,
      List.count_append]
    intro e
    omega
  | response status =>
    cases hok : PostOutcome.ok (.response status) with
    | true =>
      simp only [Bool.not_true, Bool.and_false, Bool.false_eq_true, if_true, if_false,
        HttpAuditSink.settle, List.flatMap_cons, List.map_append, hbody', List.perm_iff_count,
        List.count_append]
      intro e
      omega
    | false =>
      simp only [Bool.not_false, Bool.and_true, ne_eq, reduceCtorEq, not_false_eq_true, decide_true,
        Bool.false_eq_true, if_true, if_false, HttpAuditSink.settle, List.flatMap_cons,
        List.map_append, hbody', List.perm_iff_count, List.count_append]
      intro e
      omega

theorem Kept.settle (h : Kept env s) (i : Nat) (outcome : PostOutcome) :
    Kept env (step env s (.settle i outcome)) := by
  rw [step]
  split
  · exact h
  next post hpost =>
  split
  swap
  · exact h
  next hpending =>
  obtain ⟨front, back, hposts, rfl⟩ := Lists.exists_split hpost
  have hset : s.posts.set front.length { post with outcome := some outcome } =
      front ++ { post with outcome := some outcome } :: back := by simp [hposts]
  have hbody : post.body.map untagged = post.events.map untagged := h.bodies post (by simp [hposts])
  have hnonempty : post.body ≠ [] := h.nonempty post (by simp [hposts])
  have hflat : (front ++ { post with outcome := some outcome } :: back).flatMap Post.body =
      s.posts.flatMap Post.body := by simp [hposts]
  have hsettle : (HttpAuditSink.settle post outcome s.sink).lastHash = s.sink.lastHash := by
    cases outcome <;> rfl
  rw [hset]
  exact ⟨⟨h.written.trans (settle_perm hposts hpending hbody), by simpa only [hflat] using h.chain,
    Lists.forall_mem_replace (hposts ▸ h.nonempty) hnonempty⟩,
    by simpa only [hflat, hsettle] using h.lastHash,
    Lists.forall_mem_replace (hposts ▸ h.bodies) hbody⟩

theorem Kept.step (h : Kept env s) (i : HttpInput) : Kept env (step env s i) := by
  cases i with
  | write event =>
    rw [step_write]
    split
    · exact (h.push event).flush
    · exact h.push event
  | flush => exact h.flush
  | settle i outcome => exact h.settle i outcome

theorem kept_init (config : HttpAuditSinkConfig) : Kept env (init env config) where
  written := .refl _
  chain := trivial
  nonempty := List.forall_mem_nil _
  lastHash := rfl
  bodies := List.forall_mem_nil _

theorem run_kept (env : HttpEnv) (config : HttpAuditSinkConfig) (inputs : List HttpInput) :
    Run.AllStates (step env) (Kept env) (init env config) inputs :=
  Run.allStates_of_forall (fun _ i h => h.step i) (kept_init config)

/-- In every run, with any number of requests on their way and whatever their answers, each event
that was written is in just one place: delivered, refused, on its way or buffered; and the bodies of
all requests are one chain. -/
theorem http_accounted (env : HttpEnv) (config : HttpAuditSinkConfig) (inputs : List HttpInput) :
    Run.AllStates (step env) (Accounted env) (init env config) inputs :=
  (run_kept env config inputs).mono fun _ h => h.toAccounted

/-- Where no two texts have one digest, what the server has accepted replays from the first hash
exactly if no request was accepted that was sent behind one that was not. -/
theorem deliveries_verify_iff (env : HttpEnv) (config : HttpAuditSinkConfig)
    (inputs : List HttpInput) (hdigest : Separating env.crypto env.hmacKey) :
    Run.AllStates (step env) (fun s =>
      Verifies env.crypto env.hmacKey (genesis env) (delivered s) ↔ WithoutGap s)
      (init env config) inputs :=
  (run_kept env config inputs).mono fun _ h =>
    verifies_filter_iff hdigest h.chain h.nonempty

theorem deliveries_verify_iff_gap : Run.AllStates (step { crypto := digits }) (fun s =>
      Verifies digits none (genesis { crypto := digits }) (delivered s) ↔ WithoutGap s)
    (init { crypto := digits } { flushInterval := 1 })
    [.write blankEvent, .settle 0 .networkFailure, .write blankEvent, .settle 1 (.response 200)] :=
  deliveries_verify_iff { crypto := digits } { flushInterval := 1 } _ separating_digits

end HttpLog

end KirkForge
