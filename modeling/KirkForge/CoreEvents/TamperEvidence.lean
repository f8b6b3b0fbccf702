import KirkForge.CoreEvents.CanonicalForm
import KirkForge.CoreEvents.WormIntegrity

/-!
# Tamper evidence

What the hash of an event tells of it, and which changes of a line of a write-once log
`verifyIntegrity` finds when no two texts have one digest. The payload has the action, the outcome,
the actor, tenant, reason and time between bars, the sequence number and the canonical text of the
metadata; it has neither the id of the event nor its policy hash nor its trace id.
-/

namespace KirkForge.AuditEvent

open JsValue HashChain WormAuditSink Worm

/-- The text whose digest is the hash of an event. -/
def payload (prevHash : String) (event : AuditEvent) : String :=
  prevHash ++ "|" ++ event.action.text ++ "|" ++ event.outcome.text ++ "|" ++
    event.actorId ++ "|" ++ event.tenantId ++ "|" ++ event.reason ++ "|" ++ event.timestamp ++
    "|" ++ sequenceText event.sequence ++ "|" ++
    String.ofList ((canonicalJson (.object (event.metadata.getD .nil)) 0).getD [])

theorem chainHashOf_eq (crypto : Crypto) (hmacKey : Option String) (prevHash : String)
    (event : AuditEvent) :
    chainHashOf crypto hmacKey prevHash event =
      crypto.digest hmacKey (payload prevHash event) := rfl

/-- The free texts of an event between bars. -/
def freeTexts (event : AuditEvent) : String :=
  event.actorId ++ "|" ++ event.tenantId ++ "|" ++ event.reason ++ "|" ++ event.timestamp

def metadataForm (event : AuditEvent) : Option CanonicalForm :=
  formOf (.object (event.metadata.getD .nil)) 0

/-- The events agree in everything that a payload tells. -/
structure Indistinct (e e' : AuditEvent) : Prop where
  action : e.action = e'.action
  outcome : e.outcome = e'.outcome
  freeTexts : e.freeTexts = e'.freeTexts
  sequence : sequenceText e.sequence = sequenceText e'.sequence
  metadata : e.metadataForm = e'.metadataForm

theorem Indistinct.symm {e e' : AuditEvent} (h : Indistinct e e') : Indistinct e' e :=
  ⟨h.action.symm, h.outcome.symm, h.freeTexts.symm, h.sequence.symm, h.metadata.symm⟩

/-! ### The words of a payload -/

def actions : List AuditAction :=
  [.authSuccess, .authFailure, .authTokenRefresh, .policyCheck, .policyDeny, .policyChange,
    .tenantCreate, .tenantEvict, .tenantAccess, .verifyStart, .verifyComplete, .correctStart,
    .correctComplete, .observeRecord, .observeRecall, .memoryRead, .memoryWrite, .memoryDelete,
    .secretAccess, .secretResolve, .configChange, .toolInvoke, .toolDeny, .modelInvoke, .modelDeny,
    .systemStartup, .systemShutdown, .serveStart, .serveShutdown, .systemError]

theorem mem_actions (action : AuditAction) : action ∈ actions := by
  cases action <;> decide

theorem action_text_injective : Function.Injective AuditAction.text := by
  have hnodup : (actions.map AuditAction.text).Nodup := by
    simp [actions, AuditAction.text]
  intro a b h
  exact List.inj_on_of_nodup_map hnodup (mem_actions a) (mem_actions b) h

theorem outcome_text_injective : Function.Injective AuditOutcome.text := by
  intro a b h
  cases a <;> cases b <;> first | rfl | exact absurd h (by decide)

theorem bar_not_mem_action (action : AuditAction) : '|' ∉ action.text.toList := by
  cases action <;> decide

theorem bar_not_mem_outcome (outcome : AuditOutcome) : '|' ∉ outcome.text.toList := by
  cases outcome <;> decide

theorem metadata_text_eq_iff (e e' : AuditEvent) :
    (canonicalJson (.object (e.metadata.getD .nil)) 0).getD [] =
        (canonicalJson (.object (e'.metadata.getD .nil)) 0).getD [] ↔
      e.metadataForm = e'.metadataForm := by
  rw [metadataForm, metadataForm, ← canonicalJson_eq_iff]
  exact Option.some_inj.symm

/-- The text of the metadata is between brackets. -/
theorem metadata_enclosed (event : AuditEvent) :
    Delimited.Enclosed ((canonicalJson (.object (event.metadata.getD .nil)) 0).getD []) := by
  let members := sortMembers (memberForms (event.metadata.getD .nil) 1)
  have hform : formOf (.object (event.metadata.getD .nil)) 0 = some (.object members) := rfl
  have hwell : ∀ m ∈ members, m.2.WellFormed := fun m hm =>
    memberForms_wellFormed _ 1 m ((List.mem_insertionSort _).mp hm)
  have hall : ∀ t ∈ CanonicalForm.renderMembers members,
      Delimited.Balanced t ∧ Delimited.Tidy t := by
    rw [CanonicalForm.renderMembers_eq]
    refine List.forall_mem_map.mpr fun m hm => ?_
    obtain ⟨hbalanced, htidy⟩ := (hwell m hm).render
    exact ⟨memberText_balanced hbalanced, CanonicalForm.memberText_tidy htidy⟩
  rw [← formOf_render, hform]
  exact Delimited.enclosed_of_texts (fun t ht => (hall t ht).1) fun t ht => (hall t ht).2

/-- Payloads after one hash are the same exactly for events that agree in what they tell. -/
theorem payload_eq_iff (prevHash : String) (e e' : AuditEvent) :
    payload prevHash e = payload prevHash e' ↔ Indistinct e e' := by
  have hbar : "|".toList = ['|'] := rfl
  have htoList (event : AuditEvent) : (payload prevHash event).toList =
      prevHash.toList ++ '|' :: (event.action.text.toList ++ '|' :: (event.outcome.text.toList ++
        '|' :: ((event.freeTexts.toList ++
            '|' :: ((sequenceText event.sequence).toList ++ ['|'])) ++
          (canonicalJson (.object (event.metadata.getD .nil)) 0).getD []))) := by
    delta payload freeTexts
    simp only [String.toList_append, String.toList_ofList, hbar, List.append_assoc,
      List.cons_append, List.nil_append]
  constructor
  · intro h
    have hlist := congrArg String.toList h
    rw [htoList, htoList, List.append_cancel_left_eq] at hlist
    obtain ⟨haction, hrest⟩ := (Lists.append_cons_inj (bar_not_mem_action e.action)
      (bar_not_mem_action e'.action)).mp (List.cons.inj hlist).2
    obtain ⟨houtcome, hrest⟩ := (Lists.append_cons_inj (bar_not_mem_outcome e.outcome)
      (bar_not_mem_outcome e'.outcome)).mp hrest
    -- the metadata are told from the right, the free texts are what remains
    obtain ⟨hfront, hmetadata⟩ := Delimited.enclosed_eq_of_append (metadata_enclosed e)
      (metadata_enclosed e') hrest
    rw [← List.cons_append, ← List.append_assoc, ← List.cons_append, ← List.append_assoc] at hfront
    obtain ⟨hfree, hsequence⟩ := (Lists.append_cons_inj_right
      (bar_not_mem_sequenceText e.sequence) (bar_not_mem_sequenceText e'.sequence)).mp
      (List.append_cancel_right hfront)
    exact ⟨action_text_injective (String.toList_inj.mp haction),
      outcome_text_injective (String.toList_inj.mp houtcome), String.toList_inj.mp hfree,
      String.toList_inj.mp hsequence, (metadata_text_eq_iff e e').mp hmetadata⟩
  · intro h
    rw [← String.toList_inj, htoList, htoList, h.action, h.outcome, h.freeTexts, h.sequence,
      (metadata_text_eq_iff e e').mpr h.metadata]

/-! ### The changed line -/

/-- Other lines in a segment leave the order of the segments as it is. -/
theorem exists_readSegments_set (env : WormEnv) {directory : SegmentDirectory} {n : Nat}
    {lines : List AuditEvent} (h : directory.get? n = some lines) : ∃ front back,
      readSegments env directory = front ++ (n, lines) :: back ∧
      ∀ new, readSegments env (directory.set n new) = front ++ (n, new) :: back := by
  have hmem : (n, lines) ∈ readSegments env directory :=
    (List.mem_insertionSort _).mpr (OrderedMap.mem_entries_iff.mpr h)
  obtain ⟨front, back, hsplit⟩ := List.append_of_mem hmem
  have hnodup : ((readSegments env directory).map Prod.fst).Nodup :=
    ((List.perm_insertionSort _ _).map Prod.fst).nodup_iff.mpr directory.nodup
  rw [hsplit, List.map_append, List.map_cons] at hnodup
  obtain ⟨-, hback, hacross⟩ := List.nodup_append.mp hnodup
  refine ⟨front, back, hsplit, fun new => ?_⟩
  let replace (s : Nat × List AuditEvent) := if s.1 = n then (n, new) else s
  have hmap : readSegments env (directory.set n new) =
      (readSegments env directory).map replace := by
    have hkey (s : Nat × List AuditEvent) : (replace s).1 = s.1 := by
      simp only [replace]
      split
      · next hn => exact hn.symm
      · rfl
    rw [readSegments, readSegments, OrderedMap.entries_set h]
    refine (List.map_insertionSort _ _ replace _ fun a _ b _ => ?_).symm
    rw [hkey, hkey]
  have hkeep {l : List (Nat × List AuditEvent)} (hl : ∀ s ∈ l, s.1 ≠ n) : l.map replace = l :=
    (List.map_congr_left fun s hs => if_neg (hl s hs)).trans (List.map_id l)
  rw [hmap, hsplit, List.map_append, List.map_cons, hkeep, hkeep]
  · simp [replace]
  · rintro s hs rfl
    exact (List.nodup_cons.mp hback).1 (List.mem_map.mpr ⟨s, hs, rfl⟩)
  · rintro s hs rfl
    exact hacross _ (List.mem_map.mpr ⟨s, hs, rfl⟩) _ List.mem_cons_self rfl

/-- A log with a line of a segment put in the place of another one, as it is replayed. -/
theorem exists_split_lines (env : WormEnv) {directory : SegmentDirectory} {n j : Nat}
    {lines : List AuditEvent} {e : AuditEvent} (h : directory.get? n = some lines)
    (he : lines[j]? = some e) :
    ∃ front back, (readSegments env directory).flatMap Prod.snd = front ++ e :: back ∧
      ∀ e', (readSegments env (directory.set n (lines.set j e'))).flatMap Prod.snd =
        front ++ e' :: back := by
  obtain ⟨before, after, hread, hset⟩ := exists_readSegments_set env h
  obtain ⟨front, back, rfl, rfl⟩ := Lists.exists_split he
  refine ⟨before.flatMap Prod.snd ++ front, back ++ after.flatMap Prod.snd, ?_, fun e' => ?_⟩
  · rw [hread]
    simp
  · rw [hset]
    simp

/-- The two events are the same apart from the hash, or the payload tells them apart. -/
def Evident (e e' : AuditEvent) : Prop := e.untagged = e'.untagged ∨ ¬Indistinct e e'

theorem chainHashOf_eq_of_untagged {e e' : AuditEvent} (h : e.untagged = e'.untagged)
    (crypto : Crypto) (hmacKey : Option String) (prevHash : String) :
    chainHashOf crypto hmacKey prevHash e = chainHashOf crypto hmacKey prevHash e' := by
  have hown (event : AuditEvent) : chainHashOf crypto hmacKey prevHash event =
      chainHashOf crypto hmacKey prevHash event.untagged := rfl
  rw [hown e, h, ← hown e']

theorem eq_of_untagged {e e' : AuditEvent} (h : e.untagged = e'.untagged)
    (hhash : e.chainHash = e'.chainHash) : e = e' := by
  obtain ⟨⟩ := e
  obtain ⟨⟩ := e'
  simp_all [untagged]

/-- Payloads differ for events that differ in what a payload tells, and in no other case; with a
digest that has no collisions a log does not verify after a change of one of its lines under the
same condition. The change is to the hash of the line alone, or leaves the hash. -/
theorem tampering_evident_iff (env : WormEnv)
    (hdigest : Function.Injective (env.crypto.digest env.hmacKey)) :
    (∀ e e' : AuditEvent,
      (e.untagged ≠ e'.untagged → ∀ prevHash, payload prevHash e ≠ payload prevHash e') ↔
        Evident e e') ∧
    ∀ directory : SegmentDirectory, verifyIntegrity env directory = true →
      ∀ n lines j e, directory.get? n = some lines → lines[j]? = some e →
        ∀ e' : AuditEvent, e'.chainHash = e.chainHash ∨ e'.untagged = e.untagged →
          ((e' ≠ e → verifyIntegrity env (directory.set n (lines.set j e')) = false) ↔
            Evident e e') := by
  refine ⟨fun e e' => ?_, fun directory hverified n lines j e hlines he e' hchange => ?_⟩
  · rw [Evident, ← or_iff_not_imp_left]
    refine or_congr_right ⟨fun h hsame => ?_, fun h prevHash hpayload => ?_⟩
    · exact h "" ((payload_eq_iff "" e e').mpr hsame)
    · exact h ((payload_eq_iff prevHash e e').mp hpayload)
  · obtain ⟨front, back, hread, hset⟩ := exists_split_lines env hlines he
    rw [verifyIntegrity_iff, hread] at hverified
    rw [← Bool.not_eq_true, verifyIntegrity_iff, hset]
    rcases hchange with htag | huntagged
    · -- the line fits in exactly if its payload is the old one
      rw [Verifies, linked_replace_iff hverified htag, chainHashOf_eq, chainHashOf_eq,
        hdigest.eq_iff, payload_eq_iff, Evident]
      refine ⟨fun h => ?_, fun h hne hsame => ?_⟩
      · by_cases heq : e' = e
        · exact .inl (congrArg untagged heq.symm)
        · exact .inr fun hsame => h heq hsame.symm
      · rcases h with h | h
        · exact hne (eq_of_untagged h.symm htag)
        · exact h hsame.symm
    · refine iff_of_true (fun hne hlinked => hne ?_) (.inl huntagged.symm)
      have hhash (q : String) := chainHashOf_eq_of_untagged huntagged env.crypto env.hmacKey q
      exact eq_of_untagged huntagged (tag_eq_of_linked_replace hverified hhash hlinked)

theorem transparent_injective :
    Function.Injective (transparentEnv.crypto.digest transparentEnv.hmacKey) := by
  intro s t h
  have hlist := congrArg String.toList h
  rw [← String.toList_inj]
  simpa [transparentEnv, Crypto.digest, transparent] using hlist

/-- The first line of a log. -/
def firstLine (env : WormEnv) (event : AuditEvent) : AuditEvent :=
  event.sealed env.crypto env.hmacKey (genesis env)

def singleLog (env : WormEnv) (event : AuditEvent) : SegmentDirectory :=
  (∅ : SegmentDirectory).set 0 [firstLine env event]

theorem verifyIntegrity_singleLog (env : WormEnv) (event : AuditEvent) :
    verifyIntegrity env (singleLog env event) = true :=
  verifyIntegrity_iff.mpr ⟨rfl, trivial⟩

/-- The outcome of an event is rewritten in a log. -/
theorem rewritten_outcome_found :
    verifyIntegrity transparentEnv ((singleLog transparentEnv blankEvent).set 0
      ([firstLine transparentEnv blankEvent].set 0
        { firstLine transparentEnv blankEvent with outcome := .deny })) = false := by
  let denied : AuditEvent := { firstLine transparentEnv blankEvent with outcome := .deny }
  have hevident : Evident (firstLine transparentEnv blankEvent) denied :=
    .inr fun hsame => nomatch hsame.outcome
  refine ((tampering_evident_iff transparentEnv transparent_injective).2 _
    (verifyIntegrity_singleLog transparentEnv blankEvent) 0 _ 0 _ rfl rfl denied (.inl rfl)).mpr
    hevident fun heq => ?_
  exact nomatch congrArg outcome heq

/-- The id of an event is in no payload, and a log verifies after a change of it. -/
theorem rewritten_id_not_found :
    (¬∀ e e' : AuditEvent, e.untagged ≠ e'.untagged →
      ∀ prevHash, payload prevHash e ≠ payload prevHash e') ∧
    ¬∀ env : WormEnv, Function.Injective (env.crypto.digest env.hmacKey) →
      ∀ directory : SegmentDirectory, verifyIntegrity env directory = true →
        ∀ n lines j e, directory.get? n = some lines → lines[j]? = some e →
          ∀ e' : AuditEvent, e'.chainHash = e.chainHash → e' ≠ e →
            verifyIntegrity env (directory.set n (lines.set j e')) = false := by
  refine ⟨fun h => ?_, fun h => ?_⟩
  · have hne : blankEvent.untagged ≠ ({ blankEvent with id := "x" } : AuditEvent).untagged :=
      fun heq => absurd (congrArg AuditEvent.id heq) (by decide)
    exact h blankEvent { blankEvent with id := "x" } hne "" rfl
  · let line := firstLine transparentEnv blankEvent
    have hfalse := h transparentEnv transparent_injective _
      (verifyIntegrity_singleLog transparentEnv blankEvent) 0 [line] 0 line rfl rfl
      { line with id := "x" } rfl fun heq => absurd (congrArg AuditEvent.id heq) (by decide)
    have htrue := verifyIntegrity_singleLog transparentEnv { blankEvent with id := "x" }
    exact Bool.false_ne_true (hfalse.symm.trans htrue)

end KirkForge.AuditEvent
