import KirkForge.Orchestrator.ArtifactMode
import KirkForge.Orchestrator.FailClosed
import KirkForge.Orchestrator.Finalize
import KirkForge.ToolGitnexus.ChangeCollection

/-!
# Empty emissions

A delegation in artifact mode that writes no file is failed by `finalizeDelegation` when the change
collector counts no changed file. The collector looks at the directory and not at the writes, so a
change that was there before hides an empty emission (`emptyEmission_fails_iff`).
-/

namespace KirkForge

/-- The kinds of event that the verifiers emit. -/
def verifierKinds : List SignalKind :=
  [.verifyLint, .verifyTypes, .verifySecurity, .verifyImports, .stateChanges, .stateGraph]

/-- The event of `GitnexusEmitter`. -/
def stateChangesEvent (tree : Gitnexus.WorkingTree) (taskId : String)
    (writtenFiles : Option (List String)) (now : String) : ReducerSignal where
  taskId
  value := .stateChanges (Gitnexus.stateChanges tree (writtenFiles.getD []))
  timestamp := now

/-- The six verifiers on a directory, of which one counts the changed files. -/
structure Verifiers extends VerifierEnv where
  tree : Gitnexus.WorkingTree
  kind_mem : ∀ taskId files language writtenFiles, ∀ e ∈ emitted taskId files language writtenFiles,
    e.kind ∈ verifierKinds
  changes : ∀ taskId files language writtenFiles,
    recorded (emitted taskId files language writtenFiles) taskId .stateChanges =
      if handsOver .stateChanges then [stateChangesEvent tree taskId writtenFiles now] else []

/-- The model's output was cut off. -/
def Truncated (emission : Emission) : Prop :=
  emission.finishReason.getD "undefined" = "length" ∨
    emission.finishReason.getD "undefined" = "max_tokens"

instance : DecidablePred Truncated := fun _ => inferInstanceAs (Decidable (_ ∨ _))

/-- Nothing of the output may be written. -/
def ProtocolBroken (env : ArtifactEnv) (emission : Emission) : Prop :=
  (parseJsonlArtifacts env emission.content).strictTermination = false ∨ Truncated emission

instance (env : ArtifactEnv) : DecidablePred (ProtocolBroken env) :=
  fun _ => inferInstanceAs (Decidable (_ ∨ _))

section
variable {World : Type} (env : ArtifactEnv)
  (writeArtifacts : List ParsedArtifact → World → World × List WriteResult)
  (taskId now : String) (profile : Option TaskProfile) (emission : Emission) (world : World)

/-- The results of `writeArtifacts` on the output. -/
def artifactWrites : List WriteResult :=
  (writeArtifacts (parseJsonlArtifacts env emission.content).artifacts world).2

/-- The files of the output that are blocked, with the reasons. -/
def blockedPathsOf (writes : List WriteResult) : List BlockedPath :=
  writes.filterMap fun w => (truthyText w.blocked).map fun reason => ⟨w.filePath, reason⟩

theorem filterMap_signals {s₁ s₂ s₃ s₄ s₅ : DelegationSignal} {e₂ e₃ e₄ e₅ : ReducerSignal}
    (h₁ : s₁.toEvent? = none) (h₂ : s₂.toEvent? = some e₂) (h₃ : s₃.toEvent? = some e₃)
    (h₄ : s₄.toEvent? = some e₄) (h₅ : s₅.toEvent? = some e₅) (p q r : Prop) [Decidable p]
    [Decidable q] [Decidable r] :
    ([s₁, s₂] ++ (if p then [] else [s₃]) ++ (if q then [s₄] else []) ++
        (if r then [s₅] else [])).filterMap DelegationSignal.toEvent? =
      [e₂] ++ (if p then [] else [e₃]) ++ (if q then [e₄] else []) ++
        (if r then [e₅] else []) := by
  simp only [List.filterMap_append, apply_ite (List.filterMap DelegationSignal.toEvent?),
    List.filterMap_cons, List.filterMap_nil, h₁, h₂, h₃, h₄, h₅]

/-- An event of this kind reports something of the output that is not written. -/
def Withheld (kind : SignalKind) : Prop :=
  let parsed := parseJsonlArtifacts env emission.content
  match kind with
  | .artifactUnterminated => parsed.strictTermination = false
  | .artifactTruncated => Truncated emission
  | .artifactBlocked =>
    if ProtocolBroken env emission then parsed.artifacts ≠ []
    else blockedPathsOf (artifactWrites env writeArtifacts emission world) ≠ []
  | _ => False

/-- An artifact event that fails its task. -/
def Enforces (e : ReducerSignal) : Prop :=
  e.kind = .artifactUnterminated ∨ e.kind = .artifactTruncated ∨
    ∃ v, e.value = .artifactBlocked v ∧ v.blockedPaths ≠ []

theorem filter_ok_blockedByProtocol (artifacts : List ParsedArtifact) (reason : String) :
    (blockedByProtocol artifacts reason).filter (·.ok) = [] := by
  refine List.filter_eq_nil_iff.mpr fun w hw => ?_
  obtain ⟨a, -, rfl⟩ := List.mem_map.mp hw
  exact Bool.false_ne_true

theorem protocolReason_ne_empty {env : ArtifactEnv} {emission : Emission}
    (h : ProtocolBroken env emission) :
    protocolReason (parseJsonlArtifacts env emission.content).strictTermination emission ≠ "" := by
  have hjoin (reason : String) (reasons : List String) (hne : reason ≠ "") :
      Text.join " + " (reason :: reasons) ≠ "" := by
    cases reasons with
    | nil => exact hne
    | cons r rs => simp [Text.join, String.intercalate_cons_cons, hne]
  rw [protocolReason]
  rw [ProtocolBroken, Truncated] at h
  cases hstrict : (parseJsonlArtifacts env emission.content).strictTermination with
  | false => exact hjoin _ _ (by decide)
  | true =>
    rw [hstrict] at h
    have htruncated := h.resolve_left (by decide)
    rw [if_pos htruncated]
    exact hjoin _ _ (by simp)

theorem blockedPathsOf_blockedByProtocol {reason : String} (h : reason ≠ "")
    (artifacts : List ParsedArtifact) :
    blockedPathsOf (blockedByProtocol artifacts reason) ≠ [] ↔ artifacts ≠ [] := by
  have hpaths : blockedPathsOf (blockedByProtocol artifacts reason) =
      artifacts.map fun a => ⟨a.filePath, reason⟩ := by
    have htruthy : truthyText (some reason) = some reason :=
      Option.filter_eq_some_iff.mpr ⟨rfl, decide_eq_true h⟩
    rw [blockedPathsOf, blockedByProtocol, List.filterMap_map, ← List.filterMap_eq_map]
    refine List.filterMap_congr fun a _ => ?_
    exact congrArg (Option.map _) htruthy
  rw [hpaths, Ne, List.map_eq_nil_iff]

/-- The artifact events of an output, and the files that are handed on. -/
theorem executeArtifact_events :
    ∃ value writes emitted unterminated truncated parseWarnings,
      let event (value : SignalValue) : ReducerSignal := { taskId, value, timestamp := now }
      (executeArtifact env writeArtifacts taskId now profile (.ok emission) world).2 = .ok value ∧
      (if ProtocolBroken env emission then
        ∃ reason ≠ "",
          writes = blockedByProtocol (parseJsonlArtifacts env emission.content).artifacts reason
      else writes = artifactWrites env writeArtifacts emission world) ∧
      value.signals.filterMap DelegationSignal.toEvent? =
        [event (.artifactEmitted emitted)] ++
          (if (parseJsonlArtifacts env emission.content).strictTermination then []
          else [event (.artifactUnterminated unterminated)]) ++
          (if Truncated emission then [event (.artifactTruncated truncated)] else []) ++
          (if (blockedPathsOf writes).length > 0 then
            [event (.artifactBlocked
              { blockedPaths := blockedPathsOf writes, parseWarnings := some parseWarnings })]
          else []) ∧
      extractWrittenFiles value =
        ((writes.filter (·.ok)).map (·.filePath)).filter (· ≠ "") := by
  refine ⟨_, _, _, _, _, _, rfl, ?_, filterMap_signals rfl rfl rfl rfl rfl .., ?_⟩
  · by_cases hbroken : ProtocolBroken env emission
    · rw [if_pos hbroken]
      refine ⟨_, ?_, congrArg Prod.snd (if_pos hbroken)⟩
      split
      · simp [protocolReason_ne_empty hbroken]
      · exact protocolReason_ne_empty hbroken
    · rw [if_neg hbroken]
      exact congrArg Prod.snd (if_neg hbroken)
  · have hpaths (writes : List WriteResult) (sha : WriteResult → EmittedFile)
        (hsha : ∀ w, (sha w).path = w.filePath) :
        (((writes.filter (·.ok)).map sha).map (·.path)).filter (· ≠ "") =
          ((writes.filter (·.ok)).map (·.filePath)).filter (· ≠ "") := by
      rw [List.map_map, show (fun f : EmittedFile => f.path) ∘ sha = (·.filePath) from funext hsha]
    exact hpaths _ _ fun _ => rfl

/-- Besides the emission itself, an output has an event of each kind that reports something. -/
theorem executeArtifact_withheld
    (hnone : ¬ProtocolBroken env emission →
      ∀ w ∈ artifactWrites env writeArtifacts emission world, w.ok = false) :
    ∃ value, (executeArtifact env writeArtifacts taskId now profile (.ok emission) world).2 =
        .ok value ∧
      (∀ e ∈ value.signals.filterMap DelegationSignal.toEvent?, e.taskId = taskId ∧
        (e.kind ≠ .artifactEmitted → Enforces e)) ∧
      (∀ kind, (∃ e ∈ value.signals.filterMap DelegationSignal.toEvent?,
          e.kind = kind ∧ kind ≠ .artifactEmitted) ↔
        Withheld env writeArtifacts emission world kind) ∧
      extractWrittenFiles value = [] := by
  obtain ⟨value, writes, emitted, unterminated, truncated, parseWarnings, hvalue, hwrites, hevents,
    hfiles⟩ := executeArtifact_events env writeArtifacts taskId now profile emission world
  have hblocked : blockedPathsOf writes ≠ [] ↔
      Withheld env writeArtifacts emission world .artifactBlocked := by
    rw [Withheld]
    by_cases hbroken : ProtocolBroken env emission
    · rw [if_pos hbroken] at hwrites ⊢
      obtain ⟨reason, hreason, rfl⟩ := hwrites
      exact blockedPathsOf_blockedByProtocol hreason _
    · rw [if_neg hbroken] at hwrites ⊢
      rw [hwrites]
  have hok : writes.filter (·.ok) = [] := by
    by_cases hbroken : ProtocolBroken env emission
    · rw [if_pos hbroken] at hwrites
      obtain ⟨reason, -, rfl⟩ := hwrites
      exact filter_ok_blockedByProtocol _ reason
    · rw [if_neg hbroken] at hwrites
      refine List.filter_eq_nil_iff.mpr fun w hw => ?_
      rw [hnone hbroken w (hwrites ▸ hw)]
      exact Bool.false_ne_true
  have hmem (e : ReducerSignal) := congrArg (e ∈ ·) hevents
  simp only [List.mem_append, List.mem_singleton, List.mem_ite_nil_left, List.mem_ite_nil_right,
    List.length_pos_iff, Bool.not_eq_true, eq_iff_iff] at hmem
  refine ⟨value, hvalue, ?_, ?_, by rw [hfiles, hok]; rfl⟩
  · intro e he
    obtain ((rfl | ⟨-, rfl⟩) | ⟨-, rfl⟩) | ⟨hne, rfl⟩ := (hmem e).mp he
    · exact ⟨rfl, fun hkind => absurd rfl hkind⟩
    · exact ⟨rfl, fun _ => .inl rfl⟩
    · exact ⟨rfl, fun _ => .inr (.inl rfl)⟩
    · exact ⟨rfl, fun _ => .inr (.inr ⟨_, rfl, hne⟩)⟩
  · intro kind
    constructor
    · rintro ⟨e, he, rfl, hkind⟩
      obtain ((rfl | ⟨hstrict, rfl⟩) | ⟨htruncated, rfl⟩) | ⟨hne, rfl⟩ := (hmem e).mp he
      · exact absurd rfl hkind
      · exact hstrict
      · exact htruncated
      · exact hblocked.mp hne
    · intro hwithheld
      cases kind with
      | artifactUnterminated =>
        exact ⟨_, (hmem _).mpr (.inl (.inl (.inr ⟨hwithheld, rfl⟩))), rfl, nofun⟩
      | artifactTruncated => exact ⟨_, (hmem _).mpr (.inl (.inr ⟨hwithheld, rfl⟩)), rfl, nofun⟩
      | artifactBlocked =>
        exact ⟨_, (hmem _).mpr (.inr ⟨hblocked.mpr hwithheld, rfl⟩), rfl, nofun⟩
      | _ => exact hwithheld.elim

end

/-! ### The packet -/

variable {r : StateReducer} {h own : List ReducerSignal} {t : String}

theorem Represents.filesChanged (H : Represents r h) :
    (r.signalsOf t).changes.filesChanged = 0 ↔
      ∀ v, lastSignal h t .stateChanges = some (.stateChanges v) → v.filesChanged = 0 := by
  rw [SignalMap.changes, SignalMap.changesS, H.get]
  cases hlast : lastSignal h t .stateChanges with
  | none => exact iff_of_true rfl fun v hv => by cases hv
  | some value =>
    have hkind := lastSignal_kind hlast
    cases value <;> cases hkind
    next v => exact ⟨fun hzero _ hv => by cases hv; exact hzero, fun hall => hall v rfl⟩

/-- The override fails what the change collector finds nothing in. -/
theorem emptyEmissionOverride_eq_fail_iff (H : Represents r h) (turn : Nat)
    (policy : VerifierPolicy) (policyHash : Option String) (now : String) :
    (emptyEmissionOverride .artifact
        (r.reduce t turn (some policy) policyHash now)).verification.overall = .fail ↔
      (r.signalsOf t).changes.filesChanged = 0 ∨ FailCause h t policy := by
  rw [← overall_eq_fail_iff H turn policy policyHash now]
  have henforced : (r.reduce t turn (some policy) policyHash now).artifactEnforcement ≠ none →
      (r.reduce t turn (some policy) policyHash now).verification.overall = .fail := by
    intro hne
    rw [overall_eq_fail_iff H]
    obtain ⟨v, hv, hp⟩ | hu | ht :=
      H.artifactEnforcement_isSome.mp (Option.isSome_iff_ne_none.mpr hne)
    · exact .blocked hv hp
    · exact .unterminated hu
    · exact .truncated ht
  generalize hpacket : r.reduce t turn (some policy) policyHash now = packet at henforced ⊢
  have hchanges : packet.changes = (r.signalsOf t).changes := by rw [← hpacket]; rfl
  rw [← hchanges, emptyEmissionOverride]
  by_cases hempty : packet.changes.filesChanged = 0 ∧ packet.artifactEnforcement = none
  · rw [if_pos ⟨rfl, hempty⟩]
    exact iff_of_true rfl (.inl hempty.1)
  · rw [if_neg fun hc => hempty hc.2, if_neg (by nofun)]
    refine ⟨.inr, fun hor => hor.elim (fun hz => henforced fun hn => hempty ⟨hz, hn⟩) id⟩

/-- The verifiers that run on an output without a written file. -/
def Verifiers.onNothing (verifiers : Verifiers) (taskId : String) (language : TaskLanguage) :
    List ReducerSignal :=
  verifiers.emitted taskId (some []) (some language) (some [])

theorem Verifiers.recorded_onNothing (verifiers : Verifiers) (taskId : String)
    (language : TaskLanguage) {k : SignalKind} (hk : k ∉ verifierKinds) :
    recorded (verifiers.onNothing taskId language) t k = [] := by
  refine List.filter_eq_nil_iff.mpr fun e he hek => hk ?_
  rw [← (decide_eq_true_iff.mp hek).2]
  exact verifiers.kind_mem _ _ _ _ e he

/-- The packet of the task counts no changed file: the collector finds none, or the bus drops its
event and none was counted before. -/
def Verifiers.CountsNothing (verifiers : Verifiers) (taskId : String) (h : List ReducerSignal) :
    Prop :=
  if verifiers.handsOver .stateChanges then ¬Gitnexus.Dirty verifiers.tree
  else ∀ v, lastSignal h taskId .stateChanges = some (.stateChanges v) → v.filesChanged = 0

theorem Verifiers.countsNothing_iff (verifiers : Verifiers) (taskId : String)
    (language : TaskLanguage) (h own : List ReducerSignal)
    (hown : recorded own taskId .stateChanges = []) :
    (∀ v, lastSignal (h ++ (own ++ verifiers.onNothing taskId language)) taskId .stateChanges =
      some (.stateChanges v) → v.filesChanged = 0) ↔ verifiers.CountsNothing taskId h := by
  have hrecorded := verifiers.changes taskId (some []) (some language) (some [])
  change recorded (verifiers.onNothing taskId language) taskId .stateChanges = _ at hrecorded
  rw [CountsNothing, lastSignal, recorded_append, recorded_append, hown, List.nil_append, hrecorded]
  split
  · rw [List.getLast?_concat, ← Gitnexus.filesChanged_eq_zero_iff]
    exact ⟨fun hall => hall _ rfl, fun hzero v hv => by cases hv; exact hzero⟩
  · rw [List.append_nil, lastSignal]

/-- The artifact events and the verifiers fail the task if an event enforces that, or if the
verifiers fail it on their own. -/
theorem failCause_enforced {handed : List ReducerSignal} {policy : VerifierPolicy}
    (hhanded : ∀ e ∈ handed, e.taskId = t ∧ (e.kind ≠ .artifactEmitted → Enforces e))
    (hown : recorded own t .artifactBlocked = []) :
    FailCause (h ++ (handed ++ own)) t policy ↔
      (∃ e ∈ handed, e.kind ≠ .artifactEmitted) ∨ FailCause (h ++ own) t policy := by
  by_cases henforced : ∃ e ∈ handed, e.kind ≠ .artifactEmitted
  · refine iff_of_true ?_ (.inl henforced)
    obtain ⟨e, he, hne⟩ := henforced
    obtain ⟨rfl, hcause⟩ := hhanded e he
    have hlast := lastSignal_ne_none_of_mem (List.mem_append_right h (List.mem_append_left own he))
    obtain hkind | hkind | ⟨v, hv, -⟩ := hcause hne
    · exact .unterminated (hkind ▸ hlast)
    · exact .truncated (hkind ▸ hlast)
    · -- the last blocked event is one of those that are handed over, and they all have blocked files
      have hkind : e.kind = .artifactBlocked := by rw [ReducerSignal.kind, hv]; rfl
      have hrecorded : recorded handed e.taskId .artifactBlocked ≠ [] :=
        List.ne_nil_of_mem (mem_recorded.mpr ⟨he, rfl, hkind⟩)
      have hsignal := List.getLast?_eq_some_getLast hrecorded
      obtain ⟨hmem, -, hlastkind⟩ := mem_recorded.mp (List.mem_of_getLast? hsignal)
      generalize (recorded handed e.taskId .artifactBlocked).getLast hrecorded = e' at *
      have hlast' : lastSignal (h ++ (handed ++ own)) e.taskId .artifactBlocked = some e'.value := by
        rw [lastSignal, recorded_append, recorded_append, hown, List.append_nil,
          List.getLast?_append_of_ne_nil _ hrecorded, hsignal, Option.map_some]
      obtain hk | hk | ⟨v', hv', hpaths⟩ := (hhanded e' hmem).2 (by rw [hlastkind]; decide)
      · exact absurd (hlastkind.symm.trans hk) (by decide)
      · exact absurd (hlastkind.symm.trans hk) (by decide)
      · exact .blocked (hlast'.trans (congrArg some hv')) hpaths
  · rw [or_iff_right henforced]
    have hlast (k : SignalKind) (hk : k ≠ .artifactEmitted) :
        lastSignal (h ++ (handed ++ own)) t k = lastSignal (h ++ own) t k := by
      have hnone : recorded handed t k = [] := by
        refine List.filter_eq_nil_iff.mpr fun e he hek => henforced ⟨e, he, ?_⟩
        rw [(decide_eq_true_iff.mp hek).2]
        exact hk
      rw [lastSignal, lastSignal, recorded_append, recorded_append, recorded_append, hnone,
        List.nil_append]
    exact ⟨FailCause.congr hlast, FailCause.congr fun k hk => (hlast k hk).symm⟩

/-! ### The delegation -/

theorem emptyEmission_fails_iff {World : Type} (env : ArtifactEnv)
    (writeArtifacts : List ParsedArtifact → World → World × List WriteResult)
    (taskId now providerKey : String) (profile : TaskProfile) (policyHash : Option String)
    (emission : Emission) (world : World) (verifiers : Verifiers) (s : DelegationState)
    (H : Represents s.reducer h)
    (hnone : ¬ProtocolBroken env emission →
      ∀ w ∈ artifactWrites env writeArtifacts emission world, w.ok = false) :
    ∃ value packet,
      (finalizeDelegation s
          (executeArtifact env writeArtifacts taskId now (some profile) (.ok emission) world).2
          { taskId, mode := .artifact, profile, env := verifiers.toVerifierEnv, providerKey
            policyHash }).2 = .ok value ∧
      value.packet = some packet ∧
      (packet.verification.overall = .fail ↔
        verifiers.CountsNothing taskId h ∨
          (∃ kind, verifiers.handsOver kind = true ∧
            Withheld env writeArtifacts emission world kind) ∨
          FailCause (h ++ verifiers.onNothing taskId profile.language) taskId
            profile.verifierPolicy) := by
  obtain ⟨value, hvalue, hevents, hwithheld, hfiles⟩ := executeArtifact_withheld env writeArtifacts
    taskId now (some profile) emission world hnone
  rw [hvalue]
  refine ⟨_, _, rfl, rfl, ?_⟩
  have hall (args : FinalizeArgs) (hargs : args.env = verifiers.toVerifierEnv) :
      args.events value = verifiers.emit (value.signals.filterMap DelegationSignal.toEvent?) ++
        verifiers.onNothing args.taskId args.profile.language := by
    rw [FinalizeArgs.events, hfiles, hargs]
    rfl
  rw [hall _ rfl]
  generalize hhanded : verifiers.emit (value.signals.filterMap DelegationSignal.toEvent?) = handed
  have hmem {e : ReducerSignal} : e ∈ handed ↔
      e ∈ value.signals.filterMap DelegationSignal.toEvent? ∧ verifiers.handsOver e.kind = true := by
    rw [← hhanded, VerifierEnv.emit, List.mem_filter]
  have hown (e : ReducerSignal) (he : e ∈ handed) := hevents e (hmem.mp he).1
  have hchanges : recorded handed taskId .stateChanges = [] := by
    refine List.filter_eq_nil_iff.mpr fun e he hek => ?_
    have hkind := (decide_eq_true_iff.mp hek).2
    obtain hk | hk | ⟨v, hv, -⟩ := (hown e he).2 (by rw [hkind]; decide)
    · exact absurd (hkind.symm.trans hk) (by decide)
    · exact absurd (hkind.symm.trans hk) (by decide)
    · rw [ReducerSignal.kind, hv] at hkind
      cases hkind
  have henforced : (∃ e ∈ handed, e.kind ≠ .artifactEmitted) ↔
      ∃ kind, verifiers.handsOver kind = true ∧ Withheld env writeArtifacts emission world kind := by
    constructor
    · rintro ⟨e, he, hne⟩
      obtain ⟨hin, hover⟩ := hmem.mp he
      exact ⟨e.kind, hover, (hwithheld e.kind).mp ⟨e, hin, rfl, hne⟩⟩
    · rintro ⟨kind, hover, hkind⟩
      obtain ⟨e, hin, rfl, hne⟩ := (hwithheld kind).mpr hkind
      exact ⟨e, hmem.mpr ⟨hin, hover⟩, hne⟩
  have hrep := H.recordAll (handed ++ verifiers.onNothing taskId profile.language)
  have hblocked :
      recorded (verifiers.onNothing taskId profile.language) taskId .artifactBlocked = [] :=
    verifiers.recorded_onNothing taskId profile.language (by decide)
  rw [emptyEmissionOverride_eq_fail_iff hrep, hrep.filesChanged,
    verifiers.countsNothing_iff taskId profile.language h handed hchanges,
    failCause_enforced hown hblocked, henforced]

/-- Lint and security find nothing. -/
def cleanVerifiers (tree : Gitnexus.WorkingTree) : Verifiers where
  execFile := fun _ _ => true
  now := ""
  tree := tree
  emitted := fun taskId _ _ writtenFiles =>
    let event (value : SignalValue) : ReducerSignal := { taskId, value, timestamp := "" }
    [event (.verifyLint { status := some .pass, errors := 0, warnings := 0 }),
      event (.verifySecurity { status := some .pass, findings := 0, critical := 0, high := 0 }),
      stateChangesEvent tree taskId writtenFiles ""]
  kind_mem := by
    intro taskId files language writtenFiles e he
    simp only [List.mem_cons, List.not_mem_nil, or_false] at he
    obtain rfl | rfl | rfl := he <;>
      simp [ReducerSignal.kind, SignalValue.kind, stateChangesEvent, verifierKinds]
  changes := by
    intro taskId files language writtenFiles
    simp [recorded, ReducerSignal.kind, SignalValue.kind, stateChangesEvent]

/-- A repository in which git lists these paths as untracked. -/
def treeWith (untracked : String) : Gitnexus.WorkingTree where
  cwd := "/project"
  execFile := fun args =>
    if args = ["rev-parse", "--git-dir"] then some ".git"
    else if args = ["ls-files", "--others", "--exclude-standard"] then some untracked
    else some ""
  readFile := fun _ => none

/-- An output without a file: one JSON object without a type. -/
def silentEmission : Emission where
  agentId := "agent"
  content := "{}"
  promptTokens := 1
  completionTokens := 1
  totalTokens := 2
  model := "model"
  format := .artifact

def plainArtifactEnv : ArtifactEnv where
  allowLegacyJsonlContent := false
  allowMarkerArtifactFallback := false
  sha256Of := id
  numberText := fun _ => ""

/-- A writer that writes every file. -/
def writesAll (artifacts : List ParsedArtifact) (world : Unit) : Unit × List WriteResult :=
  (world, artifacts.map fun a => { filePath := a.filePath, bytes := a.content.length, ok := true })

theorem silentEmission_writes_nothing :
    artifactWrites plainArtifactEnv writesAll silentEmission () = [] := by
  decide

theorem emptyEmission_fails_in_clean_tree : ∃ value packet,
    (finalizeDelegation .empty (executeArtifact plainArtifactEnv writesAll "task" ""
        (some (profileForLanguage .javascript)) (.ok silentEmission) ()).2
        { taskId := "task", mode := .artifact, profile := profileForLanguage .javascript
          env := (cleanVerifiers (treeWith "")).toVerifierEnv
          providerKey := "local-ollama" }).2 = .ok value ∧
      value.packet = some packet ∧ packet.verification.overall = .fail := by
  obtain ⟨value, packet, hvalue, hpacket, hiff⟩ := emptyEmission_fails_iff plainArtifactEnv
    writesAll "task" "" "local-ollama" (profileForLanguage .javascript) none silentEmission ()
    (cleanVerifiers (treeWith "")) .empty .empty
    fun _ w hw => by rw [silentEmission_writes_nothing] at hw; cases hw
  have hclean : ¬Gitnexus.Dirty (treeWith "") := by
    unfold Gitnexus.Dirty
    decide
  exact ⟨value, packet, hvalue, hpacket, hiff.mpr (.inl hclean)⟩

/-- An untracked note of the user hides that nothing was written. -/
theorem emptyEmission_passes_in_dirty_tree :
    artifactWrites plainArtifactEnv writesAll silentEmission () = [] ∧
      (finalizeDelegation .empty (executeArtifact plainArtifactEnv writesAll "task" ""
        (some (profileForLanguage .javascript)) (.ok silentEmission) ()).2
        { taskId := "task", mode := .artifact, profile := profileForLanguage .javascript
          env := (cleanVerifiers (treeWith "notes.txt")).toVerifierEnv
          providerKey := "local-ollama" }).2.toOption.bind
        (fun value => value.packet.map (·.verification.overall)) = some .pass := by
  decide

end KirkForge
