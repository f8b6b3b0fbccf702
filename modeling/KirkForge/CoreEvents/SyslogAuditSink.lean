import KirkForge.CoreEvents.AuditEvent
import KirkForge.Theory.CommonEventFormat
import KirkForge.Theory.Occurrence

/-!
# Audit events in syslog messages

`SyslogAuditSink` writes an event as a message in the common event format, with no character of the
event escaped. A message is a single line that splits into what the event says exactly if no field
of the event has a character that would have to be escaped.
-/

namespace KirkForge

/-- What the sink reads of its configuration and of the environment. -/
structure SyslogAuditSink where
  facility : Nat := 1
  appName : String := "kirkforge"
  hostnameEnv : Option String := none

/-- What a message says of an event, whatever its texts are. -/
structure SyslogEvent where
  timestamp : String
  action : String
  outcome : AuditOutcome
  actorId : String
  tenantId : String
  reason : String
  chainHash : String
  policyHash : Option String := none
  traceId : Option String := none

def AuditEvent.syslog (event : AuditEvent) : SyslogEvent :=
  { event with action := event.action.text }

/-- `cs.replace(c, replacement)` -/
def replaceFirst (c : Char) (replacement : List Char) : List Char → List Char
  | [] => []
  | d :: cs => if d = c then replacement ++ cs else d :: replaceFirst c replacement cs

theorem mem_replaceFirst {c d : Char} {replacement cs : List Char} (hd : d ≠ c)
    (hreplacement : d ∉ replacement) : d ∈ replaceFirst c replacement cs ↔ d ∈ cs := by
  induction cs with
  | nil => rfl
  | cons e cs ih =>
    rw [replaceFirst]
    split
    · next he => simp [he, hd, hreplacement]
    · rw [List.mem_cons, List.mem_cons, ih]

namespace SyslogAuditSink

def severityForOutcome : AuditOutcome → Nat
  | .deny | .error => 4
  | .success => 6
  | .skipped => 7

def severityLabel (event : SyslogEvent) : String :=
  let severity := severityForOutcome event.outcome
  if severity ≤ 3 then "High" else if severity ≤ 5 then "Medium" else "Low"

def hostname (sink : SyslogAuditSink) : String :=
  (sink.hostnameEnv.filter (· ≠ "")).getD "kirkforge"

/-- The time of an event as a message has it. -/
def ts (event : SyslogEvent) : String :=
  String.ofList (replaceFirst 'Z' [] (replaceFirst 'T' [' '] event.timestamp.toList))

def extensions (event : SyslogEvent) : List String :=
  ["actor=" ++ event.actorId,
    "tenant=" ++ event.tenantId,
    "outcome=" ++ event.outcome.text,
    "chainHash=" ++ event.chainHash,
    ((event.policyHash.filter (· ≠ "")).map ("policyHash=" ++ ·)).getD "",
    ((event.traceId.filter (· ≠ "")).map ("traceId=" ++ ·)).getD ""].filter (· ≠ "")

/-- What is before the name of the format, and the name. -/
def preamble (sink : SyslogAuditSink) (event : SyslogEvent) : String :=
  "<" ++ toString (sink.facility * 8 + severityForOutcome event.outcome) ++ ">" ++ ts event ++ " " ++
    sink.hostname ++ " " ++ sink.appName ++ " audit: CEF:0"

def formatMessage (sink : SyslogAuditSink) (event : SyslogEvent) : String :=
  sink.preamble event ++ "|KirkForge|Audit|1.0|" ++ event.action ++ "|" ++ event.reason ++ "|" ++
    severityLabel event ++ "|" ++ Text.join " " (extensions event)

/-! ### Reading a message back -/

/-- The pairs of an event, with the policy and the trace if there are any. -/
def pairs (event : SyslogEvent) : List (String × String) :=
  [("actor", event.actorId), ("tenant", event.tenantId), ("outcome", event.outcome.text),
      ("chainHash", event.chainHash)] ++
    (event.policyHash.filter (· ≠ "")).toList.map ("policyHash", ·) ++
    (event.traceId.filter (· ≠ "")).toList.map ("traceId", ·)

/-- The record that a message stands for. -/
def record (sink : SyslogAuditSink) (event : SyslogEvent) : Cef.Record where
  header := [sink.preamble event, "KirkForge", "Audit", "1.0", event.action, event.reason,
    severityLabel event].map String.toList
  extension := (pairs event).map fun (key, value) => (key.toList, value.toList)

/-- What is read back from a message. -/
def stated (event : SyslogEvent) : List String :=
  [event.action, event.reason, severityLabel event, event.actorId, event.tenantId,
    event.outcome.text, event.chainHash]

structure InjectionFree (sink : SyslogAuditSink) (event : SyslogEvent) : Prop where
  oneLine : ∀ c ∈ (sink.formatMessage event).toList, c ≠ '\n' ∧ c ≠ '\r'
  splits : Cef.split 7 (sink.formatMessage event).toList = some (sink.record event)

/-- No bar or backslash in the header, no equals sign or backslash in the values, and no line
end. -/
structure NothingToEscape (sink : SyslogAuditSink) (event : SyslogEvent) : Prop where
  header : ∀ s ∈ [event.timestamp, sink.hostname, sink.appName, event.action, event.reason],
    Cef.FieldText s.toList
  values : ∀ s ∈ [event.actorId, event.tenantId, event.chainHash, event.policyHash.getD "",
    event.traceId.getD ""], Cef.ValueText s.toList

/-! ### The message as a record -/

variable {sink : SyslogAuditSink} {event event' : SyslogEvent}

theorem extensions_eq (event : SyslogEvent) :
    extensions event = (pairs event).map fun (key, value) => key ++ "=" ++ value := by
  have hne (key value : String) (hkey : key ≠ "") : key ++ value ≠ "" := by
    simp [hkey]
  rw [extensions, pairs]
  cases event.policyHash.filter (· ≠ "") <;> cases event.traceId.filter (· ≠ "") <;>
    simp [hne]

theorem toList_formatMessage (sink : SyslogAuditSink) (event : SyslogEvent) :
    (sink.formatMessage event).toList = (sink.record event).raw := by
  have hextension : (Text.join " " (extensions event)).toList =
      Cef.rawExtension (sink.record event).extension := by
    rw [extensions_eq, Text.join, String.toList_intercalate, Cef.rawExtension, record]
    simp only [List.map_map]
    congr 1
    refine List.map_congr_left fun p _ => ?_
    simp
  rw [formatMessage, Cef.Record.raw, String.toList_append, hextension]
  simp [record, Cef.rawHeader]

/-- A character that would have to be escaped in the header, or ends the line. -/
theorem mem_preamble {c : Char} (hc : c ∈ ['|', '\\', '\n', '\r']) :
    c ∈ (sink.preamble event).toList ↔
      c ∈ event.timestamp.toList ∨ c ∈ sink.hostname.toList ∨ c ∈ sink.appName.toList := by
  have hplain : ∀ c ∈ ['|', '\\', '\n', '\r'], c.isDigit = false ∧ (c ≠ 'T' ∧ c ≠ 'Z' ∧ c ∉ [' ']) ∧
      c ∉ "<".toList ∧ c ∉ ">".toList ∧ c ∉ " ".toList ∧ c ∉ " audit: CEF:0".toList :=
    Text.forall_mem_of_all (by decide)
  obtain ⟨hdigit, ⟨hT, hZ, hblank⟩, hless, hgreater, hspace, hformat⟩ := hplain c hc
  have hpri (n : Nat) : c ∉ (toString n).toList := by
    intro hmem
    have hisDigit := Nat.isDigit_of_mem_toDigits (by decide) (by decide) (Nat.toList_repr ▸ hmem)
    exact Bool.false_ne_true (hdigit.symm.trans hisDigit)
  have hts : c ∈ (ts event).toList ↔ c ∈ event.timestamp.toList := by
    rw [ts, String.toList_ofList, mem_replaceFirst hZ List.not_mem_nil, mem_replaceFirst hT hblank]
  rw [preamble]
  simp only [String.toList_append, List.mem_append, hts, hpri, hless, hgreater, hspace, hformat,
    false_or, or_false, or_assoc]

theorem fieldText_preamble : Cef.FieldText (sink.preamble event).toList ↔
    Cef.FieldText event.timestamp.toList ∧ Cef.FieldText sink.hostname.toList ∧
      Cef.FieldText sink.appName.toList := by
  constructor
  · intro h
    refine ⟨fun c hmem hc => ?_, fun c hmem hc => ?_, fun c hmem hc => ?_⟩
    · exact h c ((mem_preamble hc).mpr (.inl hmem)) hc
    · exact h c ((mem_preamble hc).mpr (.inr (.inl hmem))) hc
    · exact h c ((mem_preamble hc).mpr (.inr (.inr hmem))) hc
  · rintro ⟨hts, hhost, happ⟩ c hmem hc
    rcases (mem_preamble hc).mp hmem with hmem | hmem | hmem
    · exact hts c hmem hc
    · exact hhost c hmem hc
    · exact happ c hmem hc

theorem fieldText_header : (∀ field ∈ (sink.record event).header, Cef.FieldText field) ↔
    ∀ s ∈ [event.timestamp, sink.hostname, sink.appName, event.action, event.reason],
      Cef.FieldText s.toList := by
  have hlabel : Cef.FieldText (severityLabel event).toList := by
    rw [severityLabel]
    cases event.outcome <;> decide
  have hvendor : Cef.FieldText "KirkForge".toList := by decide
  have hproduct : Cef.FieldText "Audit".toList := by decide
  have hversion : Cef.FieldText "1.0".toList := by decide
  simp only [record, List.map_cons, List.map_nil, List.forall_mem_cons, fieldText_preamble,
    hvendor, hproduct, hversion, hlabel, true_and, and_assoc]
  simp

theorem valueText_extension :
    (∀ pair ∈ (sink.record event).extension, Cef.ValueText pair.1 ∧ Cef.ValueText pair.2) ↔
      ∀ s ∈ [event.actorId, event.tenantId, event.chainHash, event.policyHash.getD "",
        event.traceId.getD ""], Cef.ValueText s.toList := by
  have hoption (o : Option String) : (∀ s, (o.filter (· ≠ "")) = some s → Cef.ValueText s.toList) ↔
      Cef.ValueText (o.getD "").toList := by
    have hempty : Cef.ValueText [] := by decide
    cases o with
    | none => simp [hempty]
    | some s =>
      by_cases hs : s = ""
      · simp [hs, hempty]
      · simp [hs]
  have houtcome : Cef.ValueText event.outcome.text.toList := by
    cases event.outcome <;> decide
  have hactor : Cef.ValueText "actor".toList := by decide
  have htenant : Cef.ValueText "tenant".toList := by decide
  have hkey : Cef.ValueText "outcome".toList := by decide
  have hchain : Cef.ValueText "chainHash".toList := by decide
  have hpolicy : Cef.ValueText "policyHash".toList := by decide
  have htrace : Cef.ValueText "traceId".toList := by decide
  simp only [record, pairs, List.forall_mem_map, List.forall_mem_append, List.forall_mem_cons,
    Option.mem_toList, hactor, htenant, hkey, hchain, hpolicy, htrace, houtcome, true_and, hoption,
    and_assoc]
  simp

/-- A message is free of injections exactly if no text of the event has to be escaped. -/
theorem injectionFree_iff : InjectionFree sink event ↔ NothingToEscape sink event := by
  have hne : (sink.record event).extension ≠ [] := List.cons_ne_nil _ _
  have hkeys : ∀ pair ∈ (sink.record event).extension, ' ' ∉ pair.1 := by
    have hall : ∀ s ∈ ["actor", "tenant", "outcome", "chainHash", "policyHash", "traceId"],
        ' ' ∉ s.toList := by decide
    intro pair hpair
    obtain ⟨⟨key, value⟩, hmem, rfl⟩ := List.mem_map.mp hpair
    refine hall key ?_
    simp only [pairs, List.mem_append, List.mem_cons, List.mem_map, Prod.mk.injEq] at hmem ⊢
    tauto
  have hiff := Cef.one_line_split_raw_iff hne hkeys
  rw [← toList_formatMessage, fieldText_header, valueText_extension] at hiff
  exact ⟨fun h => ⟨(hiff.mp ⟨h.oneLine, h.splits⟩).1, (hiff.mp ⟨h.oneLine, h.splits⟩).2⟩,
    fun h => ⟨(hiff.mpr ⟨h.header, h.values⟩).1, (hiff.mpr ⟨h.header, h.values⟩).2⟩⟩

/-- The record says what is read back. -/
theorem stated_of_record (h : sink.record event = sink.record event') :
    stated event = stated event' := by
  have hheader := congrArg (fun r => r.header.map String.ofList) h
  have hextension := congrArg (fun r => r.extension.map fun p => String.ofList p.2) h
  simp only [record, pairs, List.map_map, List.map_cons, List.cons_append, List.cons.injEq,
    String.ofList_toList] at hheader hextension
  obtain ⟨-, -, -, -, haction, hreason, hlabel, -⟩ := hheader
  obtain ⟨hactor, htenant, houtcome, hchain, -⟩ := hextension
  rw [stated, stated, haction, hreason, hlabel, hactor, htenant, houtcome, hchain]

/-- A message is free of injections exactly if no text of the event has to be escaped, and no two
such events that differ in what is read back have the same message. -/
theorem messages_injection_free (sink : SyslogAuditSink) :
    (∀ event, InjectionFree sink event ↔ NothingToEscape sink event) ∧
      ∀ event event', NothingToEscape sink event → NothingToEscape sink event' →
        stated event ≠ stated event' → sink.formatMessage event ≠ sink.formatMessage event' := by
  refine ⟨fun event => injectionFree_iff, fun event event' h h' hne hsame => hne ?_⟩
  have hsplits := (injectionFree_iff.mpr h).splits
  rw [hsame, (injectionFree_iff.mpr h').splits] at hsplits
  exact (stated_of_record (Option.some.inj hsplits)).symm

/-- A successful access. -/
def accessEvent : SyslogEvent :=
  { timestamp := "2024-01-01T00:00:00.000Z", action := "tenant.access", outcome := .success,
    actorId := "eve", tenantId := "acme", reason := "ok", chainHash := "ab" }

theorem messages_of_two_tenants : formatMessage {} accessEvent ≠
    formatMessage {} { accessEvent with tenantId := "other" } :=
  (messages_injection_free {}).2 _ _
    ⟨by decide +kernel, by decide +kernel⟩ ⟨by decide +kernel, by decide +kernel⟩ (by decide)

/-- A line of the reason is a line of the message. -/
theorem mem_lines_of_reason {before line after : String}
    (hreason : event.reason = before ++ "\n" ++ line ++ "\n" ++ after)
    (hline : '\n' ∉ line.toList) : line ∈ Text.split '\n' (sink.formatMessage event) := by
  obtain ⟨front, back, hmessage⟩ : ∃ front back, (sink.formatMessage event).toList =
      front ++ '\n' :: (line.toList ++ '\n' :: back) := by
    refine ⟨(sink.preamble event ++ "|KirkForge|Audit|1.0|" ++ event.action ++ "|" ++ before).toList,
      (after ++ "|" ++ severityLabel event ++ "|" ++ Text.join " " (extensions event)).toList, ?_⟩
    simp [formatMessage, hreason]
  refine List.mem_map.mpr ⟨line.toList, ?_, String.ofList_toList⟩
  rw [hmessage, List.splitOn_append_cons_self, List.splitOn_append_cons_self_of_not_mem hline]
  exact List.mem_append_right _ List.mem_cons_self

/-- A refusal whose reason has the message of a successful access on a line of its own. -/
def forgingEvent : SyslogEvent :=
  { accessEvent with
    outcome := .deny
    reason := "no|Medium|\n" ++ formatMessage {} accessEvent ++ "\n" }

/-- The refusal is sent with the message of a successful access, and an actor with a tenant in its
name makes one message with another tenant. -/
theorem forged_message : ¬InjectionFree {} forgingEvent ∧
    formatMessage {} accessEvent ∈ Text.split '\n' (formatMessage {} forgingEvent) ∧
    stated { accessEvent with actorId := "a tenant=b", tenantId := "c" } ≠
      stated { accessEvent with actorId := "a", tenantId := "b tenant=c" } ∧
    formatMessage {} { accessEvent with actorId := "a tenant=b", tenantId := "c" } =
      formatMessage {} { accessEvent with actorId := "a", tenantId := "b tenant=c" } := by
  have hreason : forgingEvent.reason =
      "no|Medium|" ++ "\n" ++ formatMessage {} accessEvent ++ "\n" ++ "" := by
    rw [String.append_empty]
    rfl
  refine ⟨fun h => ?_, mem_lines_of_reason hreason (by decide +kernel), by decide,
    by decide +kernel⟩
  have hfields := (injectionFree_iff.mp h).header
  revert hfields
  decide +kernel

end SyslogAuditSink

end KirkForge
