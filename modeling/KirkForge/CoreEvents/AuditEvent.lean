import KirkForge.CoreEvents.CanonicalJson
import KirkForge.Theory.Encoding
import KirkForge.Theory.HashChain

/-!
# Audit events

The events of the audit log and their chain hash (`core-events/src/audit.ts`,
`core-events/src/audit-chain-hash.ts`). An event that is read back from a log has gone through JSON:
its sequence number is `null` unless it was finite, and its metadata are what JSON keeps of them.
-/

namespace KirkForge

open JsValue

inductive AuditAction
  | authSuccess | authFailure | authTokenRefresh | policyCheck | policyDeny | policyChange
  | tenantCreate | tenantEvict | tenantAccess | verifyStart | verifyComplete | correctStart
  | correctComplete | observeRecord | observeRecall | memoryRead | memoryWrite | memoryDelete
  | secretAccess | secretResolve | configChange | toolInvoke | toolDeny | modelInvoke | modelDeny
  | systemStartup | systemShutdown | serveStart | serveShutdown | systemError
  deriving DecidableEq, Repr

def AuditAction.text : AuditAction → String
  | authSuccess => "auth.success"
  | authFailure => "auth.failure"
  | authTokenRefresh => "auth.token_refresh"
  | policyCheck => "policy.check"
  | policyDeny => "policy.deny"
  | policyChange => "policy.change"
  | tenantCreate => "tenant.create"
  | tenantEvict => "tenant.evict"
  | tenantAccess => "tenant.access"
  | verifyStart => "verify.start"
  | verifyComplete => "verify.complete"
  | correctStart => "correct.start"
  | correctComplete => "correct.complete"
  | observeRecord => "observe.record"
  | observeRecall => "observe.recall"
  | memoryRead => "memory.read"
  | memoryWrite => "memory.write"
  | memoryDelete => "memory.delete"
  | secretAccess => "secret.access"
  | secretResolve => "secret.resolve"
  | configChange => "config.change"
  | toolInvoke => "tool.invoke"
  | toolDeny => "tool.deny"
  | modelInvoke => "model.invoke"
  | modelDeny => "model.deny"
  | systemStartup => "system.startup"
  | systemShutdown => "system.shutdown"
  | serveStart => "serve.start"
  | serveShutdown => "serve.shutdown"
  | systemError => "system.error"

inductive AuditOutcome
  | success | deny | error | skipped
  deriving DecidableEq, Repr

def AuditOutcome.text : AuditOutcome → String
  | success => "success"
  | deny => "deny"
  | error => "error"
  | skipped => "skipped"

/-- An audit event. The sequence number is missing where a line of a log has `null` for it. -/
structure AuditEvent where
  id : String
  sequence : Option JsNumber
  timestamp : String
  action : AuditAction
  outcome : AuditOutcome
  actorId : String
  tenantId : String
  reason : String
  chainHash : String := ""
  policyHash : Option String := none
  traceId : Option String := none
  metadata : Option JsMembers := none

/-- How `appendFileSync` ends: a failure may have created the file, but writes nothing to it. -/
inductive AppendOutcome
  | done | failed (created : Bool)

/-- The two digests of `node:crypto` in use, as hexadecimal text. -/
structure Crypto where
  sha256 : String → String
  hmacSha256 : String → String → String
  sha256_ne_empty : ∀ data, sha256 data ≠ ""
  hmacSha256_ne_empty : ∀ key data, hmacSha256 key data ≠ ""

/-- The digest under the key, if there is one that is not empty. -/
def Crypto.digest (crypto : Crypto) (hmacKey : Option String) (data : String) : String :=
  match hmacKey with
  | some key => if key ≠ "" then crypto.hmacSha256 key data else crypto.sha256 data
  | none => crypto.sha256 data

theorem digest_ne_empty (crypto : Crypto) (hmacKey : Option String) (data : String) :
    crypto.digest hmacKey data ≠ "" := by
  rw [Crypto.digest.eq_def]
  split
  · split
    · exact crypto.hmacSha256_ne_empty _ data
    · exact crypto.sha256_ne_empty data
  · exact crypto.sha256_ne_empty data

def initialHash (crypto : Crypto) (hmacKey : Option String) : String :=
  crypto.digest hmacKey "kirkforge-audit-genesis"

/-- `${event.sequence}` -/
def sequenceText : Option JsNumber → String
  | some x => x.text
  | none => "null"

def chainHashOf (crypto : Crypto) (hmacKey : Option String) (prevHash : String)
    (event : AuditEvent) : String :=
  let metadataJson := (canonicalJson (.object (event.metadata.getD .nil)) 0).getD []
  let payload := prevHash ++ "|" ++ event.action.text ++ "|" ++ event.outcome.text ++ "|" ++
    event.actorId ++ "|" ++ event.tenantId ++ "|" ++ event.reason ++ "|" ++ event.timestamp ++ "|" ++
    sequenceText event.sequence ++ "|" ++ String.ofList metadataJson
  crypto.digest hmacKey payload

namespace AuditEvent

/-- `JSON.parse(JSON.stringify(event))` -/
def stored (event : AuditEvent) : AuditEvent :=
  { event with
    sequence := event.sequence.filter fun x => x matches .finite _
    metadata := event.metadata.map fun members => ofFields (membersToJson members) }

/-- `{ ...event, chainHash }` with the hash that follows `prevHash`. -/
def sealed (crypto : Crypto) (hmacKey : Option String) (prevHash : String) (event : AuditEvent) :
    AuditEvent :=
  { event with chainHash := chainHashOf crypto hmacKey prevHash event }

/-- The event apart from its hash. -/
def untagged (event : AuditEvent) : AuditEvent := { event with chainHash := "" }

/-- The sequence number is finite and no member of the metadata is changed by JSON. -/
structure SurvivesStorage (event : AuditEvent) : Prop where
  sequence : ∀ x, event.sequence = some x → ∃ q, x = .finite q
  metadata : ∀ members, event.metadata = some members → MembersSurvive members 1

theorem metadata_text_iff (event : AuditEvent) :
    canonicalJson (.object (event.stored.metadata.getD .nil)) 0 =
        canonicalJson (.object (event.metadata.getD .nil)) 0 ↔
      ∀ members, event.metadata = some members → MembersSurvive members 1 := by
  cases hm : event.metadata with
  | none => simp [stored, hm]
  | some members =>
    have hstored : event.stored.metadata.getD .nil = ofFields (membersToJson members) := by
      simp [stored, hm]
    have hobject (ms : JsMembers) :
        canonicalJson (.object ms) 0 = some (objectText (memberTexts ms 1)) := rfl
    rw [hstored, Option.getD_some, hobject, hobject, Option.some.injEq, objectText_ofFields_iff,
      members_text_iff]
    simp

theorem sequence_text_iff (event : AuditEvent) :
    sequenceText event.stored.sequence = sequenceText event.sequence ↔
      ∀ x, event.sequence = some x → ∃ q, x = .finite q := by
  cases hs : event.sequence with
  | none => simp [stored, hs]
  | some x =>
    cases x with
    | finite q => simp [stored, hs, Option.filter]
    | posInf | negInf | nan =>
      refine iff_of_false ?_ fun h => ?_
      · simp only [stored, hs]
        decide
      · obtain ⟨q, hq⟩ := h _ rfl
        exact nomatch hq

theorem bar_not_mem_sequenceText (sequence : Option JsNumber) :
    '|' ∉ (sequenceText sequence).toList := by
  cases sequence with
  | none => decide
  | some x =>
    cases x with
    | finite q =>
      intro hbar
      have hmem := JsNumber.finiteChars_subset q '|' <| by
        simpa [sequenceText, JsNumber.text] using hbar
      exact absurd hmem (by decide)
    | posInf | negInf | nan => decide

/-- The digests that give the text back, so that different texts have different digests. -/
def transparent : Crypto where
  sha256 data := "#" ++ data
  hmacSha256 key data := "#" ++ key ++ data
  sha256_ne_empty data := by simp [← String.toList_inj]
  hmacSha256_ne_empty key data := by simp [← String.toList_inj]

theorem survivesStorage_sealed {crypto : Crypto} {hmacKey : Option String} {p : String}
    {event : AuditEvent} (h : event.SurvivesStorage) :
    (event.sealed crypto hmacKey p).SurvivesStorage := ⟨h.sequence, h.metadata⟩

theorem chainHashOf_stored {event : AuditEvent} (h : event.SurvivesStorage) (crypto : Crypto)
    (hmacKey : Option String) (prevHash : String) :
    chainHashOf crypto hmacKey prevHash event.stored =
      chainHashOf crypto hmacKey prevHash event := by
  have hsequence := (sequence_text_iff event).mpr h.sequence
  have hmetadata := (metadata_text_iff event).mpr h.metadata
  simp only [chainHashOf, hsequence, hmetadata]
  rfl

/-- Transparent digests compare the payloads, which end in the two texts that storage may change. -/
theorem survivesStorage_of_transparent {event : AuditEvent} {prevHash : String}
    (h : chainHashOf transparent none prevHash event.stored =
      chainHashOf transparent none prevHash event) : event.SurvivesStorage := by
  have hpayload := congrArg String.toList h
  have haction : event.stored.action = event.action := rfl
  have houtcome : event.stored.outcome = event.outcome := rfl
  have hactor : event.stored.actorId = event.actorId := rfl
  have htenant : event.stored.tenantId = event.tenantId := rfl
  have hreason : event.stored.reason = event.reason := rfl
  have htime : event.stored.timestamp = event.timestamp := rfl
  have hbar : "|".toList = ['|'] := rfl
  simp only [chainHashOf, Crypto.digest, transparent, String.toList_append, List.append_assoc,
    List.append_cancel_left_eq, haction, houtcome, hactor, htenant, hreason, htime, hbar,
    List.singleton_append] at hpayload
  obtain ⟨hsequence, hmetadata⟩ := (Lists.append_cons_inj
    (bar_not_mem_sequenceText event.stored.sequence)
    (bar_not_mem_sequenceText event.sequence)).mp (List.cons.inj hpayload).2
  refine ⟨(sequence_text_iff event).mp (String.toList_inj.mp hsequence),
    (metadata_text_iff event).mp ?_⟩
  obtain ⟨t, ht⟩ := exists_canonicalJson (v := .object (event.stored.metadata.getD .nil)) nofun 0
  obtain ⟨u, hu⟩ := exists_canonicalJson (v := .object (event.metadata.getD .nil)) nofun 0
  simpa [ht, hu] using hmetadata

/-! ### Logs -/

/-- The events of a log in the order of writing, each with the hash that links it to the one before,
as they are read back from storage. -/
def storedLog (crypto : Crypto) (hmacKey : Option String) (prevHash : String)
    (events : List AuditEvent) : List AuditEvent :=
  (HashChain.markFrom chainHash (sealed crypto hmacKey) prevHash events).map stored

/-- Replaying the lines gives every one its hash. -/
def Verifies (crypto : Crypto) (hmacKey : Option String) (prevHash : String)
    (lines : List AuditEvent) : Prop :=
  HashChain.Linked (chainHashOf crypto hmacKey) chainHash prevHash lines

theorem storedLog_verifies {crypto : Crypto} {hmacKey : Option String} {prevHash : String}
    {events : List AuditEvent} (h : ∀ e ∈ events, e.SurvivesStorage) :
    Verifies crypto hmacKey prevHash (storedLog crypto hmacKey prevHash events) := by
  rw [Verifies, storedLog, HashChain.linked_map_iff]
  · apply HashChain.linked_markFrom
    intro p x
    rfl
  · intro x hx
    obtain ⟨e, he, p, rfl⟩ := HashChain.mem_markFrom hx
    exact ⟨rfl, chainHashOf_stored (survivesStorage_sealed (h e he)) crypto hmacKey⟩

/-- Lines that replay all have a hash. -/
theorem Verifies.chainHash_ne_empty {crypto : Crypto} {hmacKey : Option String} {p : String}
    {lines : List AuditEvent} (h : Verifies crypto hmacKey p lines) :
    ∀ e ∈ lines, e.chainHash ≠ "" := by
  induction lines generalizing p with
  | nil => exact List.forall_mem_nil _
  | cons e lines ih =>
    refine List.forall_mem_cons.mpr ⟨?_, ih h.2⟩
    rw [h.1]
    exact digest_ne_empty _ _ _

theorem survivesStorage_of_verifies {prevHash : String} {events : List AuditEvent}
    (h : Verifies transparent none prevHash (storedLog transparent none prevHash events)) :
    ∀ e ∈ events, e.SurvivesStorage := by
  induction events generalizing prevHash with
  | nil => exact List.forall_mem_nil _
  | cons e events ih =>
    exact List.forall_mem_cons.mpr ⟨survivesStorage_of_transparent h.1.symm, ih h.2⟩

/-- The stored event has the hash of the event, and a log of events replays, exactly if storage
changes no sequence number and no metadata. -/
theorem chainHash_survives_storage_iff (event : AuditEvent) :
    ((∀ crypto hmacKey prevHash, chainHashOf crypto hmacKey prevHash event =
        chainHashOf crypto hmacKey prevHash event.stored) ↔ event.SurvivesStorage) ∧
      ∀ events : List AuditEvent,
        (∀ crypto hmacKey, Verifies crypto hmacKey (initialHash crypto hmacKey)
            (storedLog crypto hmacKey (initialHash crypto hmacKey) events)) ↔
          ∀ e ∈ events, e.SurvivesStorage := by
  refine ⟨⟨fun h => ?_, fun h crypto hmacKey prevHash => ?_⟩,
    fun events => ⟨fun h => ?_, fun h => ?_⟩⟩
  · exact survivesStorage_of_transparent (h transparent none "").symm
  · exact (chainHashOf_stored h crypto hmacKey prevHash).symm
  · exact survivesStorage_of_verifies (h transparent none)
  · exact fun crypto hmacKey => storedLog_verifies h

/-- JSON drops a member that is `undefined`, and the canonical text has `null` for it. -/
theorem chainHash_changes_with_undefined :
    ¬∀ (crypto : Crypto) (hmacKey : Option String) (prevHash : String) (event : AuditEvent),
      chainHashOf crypto hmacKey prevHash event =
        chainHashOf crypto hmacKey prevHash event.stored := by
  intro h
  let event : AuditEvent :=
    { id := "1", sequence := some 1, timestamp := "2024-01-01T00:00:00.000Z",
      action := .policyCheck, outcome := .success, actorId := "alice", tenantId := "acme",
      reason := "ok", metadata := some (.cons "note" .undefined .nil) }
  have hsurvives := survivesStorage_of_transparent (h transparent none "" event).symm
  exact (hsurvives.metadata _ rfl).1 rfl

/-- An event with nothing in it. -/
def blankEvent : AuditEvent :=
  { id := "", sequence := some 0, timestamp := "", action := .systemError, outcome := .success,
    actorId := "", tenantId := "", reason := "" }

theorem blankEvent_survives : blankEvent.SurvivesStorage :=
  ⟨fun _ hx => ⟨0, (Option.some.inj hx).symm⟩, nofun⟩

/-! ### Digests that separate texts -/

open Encoding HashChain

/-- No two texts have one digest, and no digest has a bar in it. -/
structure Separating (crypto : Crypto) (hmacKey : Option String) : Prop where
  injective : Function.Injective (crypto.digest hmacKey)
  bar : ∀ data, '|' ∉ (crypto.digest hmacKey data).toList

/-- The text of an event begins with the hash before it and a bar. -/
theorem exists_chainHashOf (crypto : Crypto) (hmacKey : Option String) (event : AuditEvent) :
    ∃ rest : String, ∀ p,
      chainHashOf crypto hmacKey p event = crypto.digest hmacKey (p ++ ("|" ++ rest)) := by
  simp only [chainHashOf, String.append_assoc]
  exact ⟨_, fun p => rfl⟩

theorem eq_of_chainHashOf_eq {crypto : Crypto} {hmacKey : Option String}
    (hdigest : Separating crypto hmacKey) {p q : String} {e e' : AuditEvent}
    (hp : '|' ∉ p.toList) (hq : '|' ∉ q.toList)
    (h : chainHashOf crypto hmacKey p e = chainHashOf crypto hmacKey q e') : p = q := by
  obtain ⟨rest, hrest⟩ := exists_chainHashOf crypto hmacKey e
  obtain ⟨rest', hrest'⟩ := exists_chainHashOf crypto hmacKey e'
  rw [hrest, hrest'] at h
  have htext := congrArg String.toList (hdigest.injective h)
  have hbar : "|".toList = ['|'] := rfl
  simp only [String.toList_append, hbar, List.singleton_append] at htext
  exact String.toList_inj.mp ((Lists.append_cons_inj hp hq).mp htext).1

theorem eq_of_chainHashOf_same {crypto : Crypto} {hmacKey : Option String}
    (hdigest : Separating crypto hmacKey) {p q : String} {e : AuditEvent}
    (h : chainHashOf crypto hmacKey p e = chainHashOf crypto hmacKey q e) : p = q := by
  obtain ⟨rest, hrest⟩ := exists_chainHashOf crypto hmacKey e
  rw [hrest, hrest] at h
  have htext := congrArg String.toList (hdigest.injective h)
  simp only [String.toList_append] at htext
  exact String.toList_inj.mp (List.append_cancel_right htext)

theorem initialHash_ne {crypto : Crypto} {hmacKey : Option String}
    (hdigest : Separating crypto hmacKey) (p : String) (e : AuditEvent) :
    chainHashOf crypto hmacKey p e ≠ initialHash crypto hmacKey := by
  intro h
  obtain ⟨rest, hrest⟩ := exists_chainHashOf crypto hmacKey e
  rw [hrest, initialHash] at h
  have hbar : '|' ∈ "kirkforge-audit-genesis".toList := by
    rw [← hdigest.injective h]
    simp
  exact absurd hbar (by decide)

/-- The hashes of a chain are all different. -/
theorem nodup_hashes {crypto : Crypto} {hmacKey : Option String}
    (hdigest : Separating crypto hmacKey) {events : List AuditEvent}
    (h : Verifies crypto hmacKey (initialHash crypto hmacKey) events) :
    (initialHash crypto hmacKey :: events.map chainHash).Nodup := by
  have hbar (p : String) (e : AuditEvent) : '|' ∉ (chainHashOf crypto hmacKey p e).toList :=
    hdigest.bar _
  have hsame (p q : String) (e e' : AuditEvent) (hp : '|' ∉ p.toList) (hq : '|' ∉ q.toList)
      (hhash : chainHashOf crypto hmacKey p e = chainHashOf crypto hmacKey q e') : p = q :=
    eq_of_chainHashOf_eq hdigest hp hq hhash
  apply nodup_tags hbar hsame h (hdigest.bar _)
  intro hmem
  obtain ⟨e, he, htag⟩ := List.mem_map.mp hmem
  obtain ⟨q, -, hhash⟩ := exists_tag_of_mem h he
  exact initialHash_ne hdigest q e (hhash.symm.trans htag)

/-- Of the batches that were sealed one after the other, some replay only if none of the others was
sealed before one of them. -/
theorem verifies_filter_iff {β : Type*} {q : β → Bool} {body : β → List AuditEvent}
    {crypto : Crypto} {hmacKey : Option String} (hdigest : Separating crypto hmacKey)
    {batches : List β}
    (h : Verifies crypto hmacKey (initialHash crypto hmacKey) (batches.flatMap body))
    (hbody : ∀ b ∈ batches, body b ≠ []) :
    Verifies crypto hmacKey (initialHash crypto hmacKey) ((batches.filter q).flatMap body) ↔
      batches.Pairwise fun earlier later => q later = true → q earlier = true := by
  have hsame (p q : String) (e : AuditEvent) (hhash : chainHashOf crypto hmacKey p e =
      chainHashOf crypto hmacKey q e) : p = q := eq_of_chainHashOf_same hdigest hhash
  exact linked_filter_iff hsame h (nodup_hashes hdigest h) hbody

/-- A digest that gives the text back, in digits. -/
def digits : Crypto where
  sha256 data := "#" ++ encodeBase64 (encodeUtf8 data)
  hmacSha256 key data := "#" ++ key ++ encodeBase64 (encodeUtf8 data)
  sha256_ne_empty data := by simp [← String.toList_inj]
  hmacSha256_ne_empty key data := by simp [← String.toList_inj]

theorem separating_digits : Separating digits none where
  injective text text' h := by
    have hlist : "#" ++ encodeBase64 (encodeUtf8 text) = "#" ++ encodeBase64 (encodeUtf8 text') := h
    rw [← String.toList_inj, String.toList_append, String.toList_append, List.append_cancel_left_eq,
      String.toList_inj] at hlist
    have hbytes := congrArg decodeBase64 hlist
    rw [decodeBase64_encodeBase64 mem_encodeUtf8, decodeBase64_encodeBase64 mem_encodeUtf8] at hbytes
    have htext := congrArg decodeUtf8 hbytes
    rwa [decodeUtf8_encodeUtf8, decodeUtf8_encodeUtf8] at htext
  bar data := by
    have hdigest : digits.digest none data = "#" ++ encodeBase64 (encodeUtf8 data) := rfl
    rw [hdigest, String.toList_append, List.mem_append]
    rintro (hmem | hmem)
    · exact absurd hmem (by decide)
    · obtain hdigit | hpadding := mem_encodeBase64 mem_encodeUtf8 hmem
      · exact absurd hdigit (by decide)
      · exact absurd hpadding (by decide)

end AuditEvent

end KirkForge
