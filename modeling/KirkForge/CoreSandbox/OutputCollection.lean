import KirkForge.CoreSandbox.Runner
import KirkForge.Theory.ChunkedDecoding

/-!
# The output of a sandboxed process

The handlers of `runSandboxed` for the `data` events of a process. They decode every event on its
own and drop the event that crosses the limit as a whole. So what is captured depends on how the
output is cut into events, except where no cut can make a difference (`captured_iff`).
-/

namespace KirkForge

open Encoding (decodeFrom decodeUtf8 decodeChunks Uncut Separate singles)

inductive OutputStream
  | stdout | stderr
  deriving DecidableEq, Repr

def OutputStream.label : OutputStream → String
  | stdout => "Stdout"
  | stderr => "Stderr"

structure DataEvent where
  stream : OutputStream
  data : List Nat

/-- What has been collected of one stream. -/
structure Collected where
  text : String := ""
  bytes : Nat := 0

structure OutputState where
  stdout : Collected := {}
  stderr : Collected := {}
  truncated : Bool := false
  violations : List SandboxViolation

namespace OutputState

def of (s : OutputState) : OutputStream → Collected
  | .stdout => s.stdout
  | .stderr => s.stderr

def put (s : OutputState) (c : Collected) : OutputStream → OutputState
  | .stdout => { s with stdout := c }
  | .stderr => { s with stderr := c }

/-- A stream has exceeded the limit; the first one that does is reported. -/
def exceed (s : OutputState) (constraints : RequiredConstraints) (stream : OutputStream) :
    OutputState :=
  if s.truncated then s
  else
    { s with
      truncated := true
      violations := s.violations ++
        [{ type := .outputSize
           message := stream.label ++ " exceeded maxOutputBytes=" ++
             constraints.maxOutputBytes.text }] }

end OutputState

/-- `child.stdout.on("data", …)` and `child.stderr.on("data", …)` -/
def onData (constraints : RequiredConstraints) (s : OutputState) (e : DataEvent) : OutputState :=
  let c := s.of e.stream
  let bytes := c.bytes + e.data.length
  if JsNumber.gt bytes constraints.maxOutputBytes then
    (s.put { c with bytes } e.stream).exceed constraints e.stream
  else s.put { text := c.text ++ decodeUtf8 e.data, bytes } e.stream

/-- The state when the process is closed, with the violations of the checks before. -/
def collectOutput (constraints : RequiredConstraints) (violations : List SandboxViolation)
    (events : List DataEvent) : OutputState :=
  events.foldl (onData constraints) { violations }

/-- What a result has of the output. -/
@[ext] structure Capture where
  text : OutputStream → String
  truncated : Bool

def OutputState.capture (s : OutputState) : Capture := ⟨fun stream => (s.of stream).text, s.truncated⟩

/-! ### Captured output -/

def chunksOf (stream : OutputStream) (events : List DataEvent) : List (List Nat) :=
  (events.filter fun e => e.stream = stream).map (·.data)

/-- The bytes that a process has written to a stream. -/
def outputOf (stream : OutputStream) (events : List DataEvent) : List Nat :=
  (chunksOf stream events).flatten

/-- Whether some bytes are within the limit. -/
def fits (constraints : RequiredConstraints) (bytes : List Nat) : Bool :=
  JsNumber.le bytes.length constraints.maxOutputBytes

/-- The streams are captured as a whole, or as far as a part of them within the limit goes. One flag
says of both whether something is missing. -/
structure Captures (constraints : RequiredConstraints) (events : List DataEvent) (c : Capture) :
    Prop where
  whole : ∀ stream, fits constraints (outputOf stream events) = true →
    c.text stream = decodeUtf8 (outputOf stream events)
  part : ∀ stream, fits constraints (outputOf stream events) = false →
    ∃ front, front <+: outputOf stream events ∧ fits constraints front = true ∧
      c.text stream = decodeUtf8 front
  truncated : c.truncated = true ↔ ∃ stream, fits constraints (outputOf stream events) = false

/-- However the output of a process is cut into events, it is captured, and in the same way. -/
def CapturesAnyCut (constraints : RequiredConstraints) (violations : List SandboxViolation)
    (output : OutputStream → List Nat) : Prop :=
  (∀ events, (∀ stream, outputOf stream events = output stream) →
    Captures constraints events (collectOutput constraints violations events).capture) ∧
  ∀ events events', (∀ stream, outputOf stream events = output stream) →
    (∀ stream, outputOf stream events' = output stream) →
    (collectOutput constraints violations events).capture =
      (collectOutput constraints violations events').capture

/-! ### What is collected -/

variable {constraints : RequiredConstraints} {violations : List SandboxViolation}
  {events : List DataEvent} {s : OutputState} {stream stream' : OutputStream} {e : DataEvent}
  {chunks : List (List Nat)} {bytes : List Nat} {n : Nat}

@[simp] theorem OutputState.of_put (s : OutputState) (c : Collected)
    (stream stream' : OutputStream) :
    (s.put c stream).of stream' = if stream = stream' then c else s.of stream' := by
  cases stream <;> cases stream' <;> rfl

@[simp] theorem OutputState.of_exceed (s : OutputState) (stream stream' : OutputStream) :
    (s.exceed constraints stream).of stream' = s.of stream' := by
  rw [exceed]
  split <;> cases stream' <;> rfl

@[simp] theorem OutputState.truncated_exceed (s : OutputState) (stream : OutputStream) :
    (s.exceed constraints stream).truncated = true := by
  rw [exceed]
  split
  · assumption
  · rfl

@[simp] theorem OutputState.truncated_put (s : OutputState) (c : Collected)
    (stream : OutputStream) : (s.put c stream).truncated = s.truncated := by
  cases stream <;> rfl

/-- The chunks up to the one that crosses the limit, behind `n` bytes. -/
def fitting (constraints : RequiredConstraints) : Nat → List (List Nat) → List (List Nat)
  | _, [] => []
  | n, chunk :: chunks =>
    if JsNumber.gt (n + chunk.length : Nat) constraints.maxOutputBytes then []
    else chunk :: fitting constraints (n + chunk.length) chunks

/-- No bytes are captured behind too many. -/
theorem fitting_eq_nil (h : JsNumber.gt n constraints.maxOutputBytes = true) :
    fitting constraints n chunks = [] := by
  cases chunks with
  | nil => rfl
  | cons chunk chunks =>
    rw [fitting, if_pos (JsNumber.gt_natCast_mono h (Nat.le_add_right ..))]

theorem not_gt_of_fits {m : Nat} (h : JsNumber.le n constraints.maxOutputBytes = true)
    (hle : m ≤ n) : JsNumber.gt m constraints.maxOutputBytes = false := by
  rw [Bool.eq_false_iff]
  intro hgt
  have hmore := JsNumber.gt_natCast_mono hgt hle
  simp [JsNumber.gt, h] at hmore

/-- Within the limit every chunk is captured. -/
theorem fitting_of_le
    (h : JsNumber.le (n + chunks.flatten.length : Nat) constraints.maxOutputBytes = true) :
    fitting constraints n chunks = chunks := by
  induction chunks generalizing n with
  | nil => rfl
  | cons chunk chunks ih =>
    rw [List.flatten_cons, List.length_append, ← Nat.add_assoc] at h
    rw [fitting, not_gt_of_fits h (Nat.le_add_right ..), if_neg Bool.false_ne_true, ih h]

/-- What is captured is a part of the chunks within the limit. -/
theorem fitting_spec (h : JsNumber.le n constraints.maxOutputBytes = true)
    (chunks : List (List Nat)) :
    (fitting constraints n chunks).flatten <+: chunks.flatten ∧
      JsNumber.le (n + (fitting constraints n chunks).flatten.length : Nat)
        constraints.maxOutputBytes = true := by
  induction chunks generalizing n with
  | nil => exact ⟨List.prefix_rfl, h⟩
  | cons chunk chunks ih =>
    rw [fitting]
    split
    · exact ⟨List.nil_prefix, h⟩
    · next hgt =>
      have hne := JsNumber.not_nan_of_le h
      rw [JsNumber.gt_eq_not_le (JsNumber.natCast_ne_nan _) hne.2, Bool.not_eq_true',
        Bool.not_eq_false] at hgt
      obtain ⟨hfront, hle⟩ := ih hgt
      rw [List.flatten_cons, List.flatten_cons, List.length_append, ← Nat.add_assoc]
      exact ⟨(List.prefix_append_right_inj chunk).mpr hfront, hle⟩

theorem chunksOf_cons (e : DataEvent) (events : List DataEvent) (stream : OutputStream) :
    chunksOf stream (e :: events) =
      if e.stream = stream then e.data :: chunksOf stream events else chunksOf stream events := by
  by_cases h : e.stream = stream <;> simp [chunksOf, h]

theorem outputOf_cons (e : DataEvent) (events : List DataEvent) (stream : OutputStream) :
    outputOf stream (e :: events) =
      if e.stream = stream then e.data ++ outputOf stream events else outputOf stream events := by
  rw [outputOf, chunksOf_cons]
  split <;> rfl

theorem of_onData (s : OutputState) (e : DataEvent) (stream : OutputStream) :
    (onData constraints s e).of stream =
      if e.stream = stream then
        { text := (s.of stream).text ++
            if JsNumber.gt ((s.of stream).bytes + e.data.length : Nat) constraints.maxOutputBytes
              then "" else decodeUtf8 e.data
          bytes := (s.of stream).bytes + e.data.length }
      else s.of stream := by
  rw [onData]
  split
  · next hgt =>
    rw [OutputState.of_exceed, OutputState.of_put]
    split
    · next h =>
      subst h
      rw [if_pos hgt, String.append_empty]
    · rfl
  · next hgt =>
    rw [OutputState.of_put]
    split
    · next h =>
      subst h
      rw [if_neg hgt]
    · rfl

/-- A stream has the text of the chunks that fit, and counts the bytes of all. -/
theorem of_foldl_onData (s : OutputState) (events : List DataEvent) (stream : OutputStream) :
    (events.foldl (onData constraints) s).of stream =
      { text := (s.of stream).text ++ String.ofList
          (decodeChunks (fitting constraints (s.of stream).bytes (chunksOf stream events)))
        bytes := (s.of stream).bytes + (outputOf stream events).length } := by
  induction events generalizing s with
  | nil => simp [chunksOf, outputOf, fitting, decodeChunks]
  | cons e events ih =>
    rw [List.foldl_cons, ih, of_onData, outputOf_cons, chunksOf_cons]
    by_cases h : e.stream = stream
    · simp only [if_pos h, List.length_append, fitting, Nat.add_assoc]
      split
      · next hgt =>
        rw [fitting_eq_nil hgt, String.append_empty]
      · simp [decodeChunks, decodeUtf8, String.append_assoc]
    · simp only [if_neg h]

theorem truncated_onData (s : OutputState) (e : DataEvent) :
    (onData constraints s e).truncated = true ↔ s.truncated = true ∨
      JsNumber.gt ((s.of e.stream).bytes + e.data.length : Nat) constraints.maxOutputBytes = true := by
  rw [onData]
  split
  · next hgt => simp [hgt]
  · next hgt => simp [hgt]

/-- The flag says whether a stream that had an event has exceeded the limit. -/
theorem truncated_foldl_onData (s : OutputState) (events : List DataEvent) :
    (events.foldl (onData constraints) s).truncated = true ↔ s.truncated = true ∨
      ∃ stream, chunksOf stream events ≠ [] ∧
        JsNumber.gt ((s.of stream).bytes + (outputOf stream events).length : Nat)
          constraints.maxOutputBytes = true := by
  induction events generalizing s with
  | nil => simp [chunksOf]
  | cons e events ih =>
    rw [List.foldl_cons, ih, truncated_onData, or_assoc]
    refine or_congr_right ?_
    simp only [of_onData, outputOf_cons, chunksOf_cons]
    constructor
    · rintro (hgt | ⟨stream, hne, hgt⟩)
      · refine ⟨e.stream, ?_, ?_⟩
        · simp
        · refine JsNumber.gt_natCast_mono hgt ?_
          rw [if_pos rfl, List.length_append]
          omega
      · refine ⟨stream, ?_, ?_⟩
        · split <;> simp [hne]
        · split at hgt
          · next h => simpa [h, Nat.add_assoc] using hgt
          · next h => simpa [h] using hgt
    · rintro ⟨stream, hne, hgt⟩
      by_cases h : e.stream = stream
      · subst h
        rw [if_pos rfl, List.length_append, ← Nat.add_assoc] at hgt
        by_cases hrest : chunksOf e.stream events = []
        · rw [outputOf, hrest] at hgt
          exact .inl hgt
        · exact .inr ⟨e.stream, hrest, by simpa using hgt⟩
      · rw [if_neg h] at hne hgt
        exact .inr ⟨stream, hne, by rwa [if_neg h]⟩

theorem text_collectOutput (events : List DataEvent) (stream : OutputStream) :
    (collectOutput constraints violations events).capture.text stream =
      String.ofList (decodeChunks (fitting constraints 0 (chunksOf stream events))) := by
  change ((events.foldl (onData constraints) { violations }).of stream).text = _
  rw [of_foldl_onData]
  cases stream <;> simp [OutputState.of]

theorem truncated_collectOutput (events : List DataEvent) :
    (collectOutput constraints violations events).capture.truncated = true ↔
      ∃ stream, chunksOf stream events ≠ [] ∧
        JsNumber.gt (outputOf stream events).length constraints.maxOutputBytes = true := by
  refine (truncated_foldl_onData _ events).trans ?_
  simp only [Bool.false_eq_true, false_or]
  refine exists_congr fun stream => ?_
  cases stream <;> simp [OutputState.of]

/-! ### Within the limit -/

/-- A stream within the limit is captured as a whole exactly if no character of it is cut. -/
theorem text_eq_iff (h : fits constraints (outputOf stream events) = true) :
    (collectOutput constraints violations events).capture.text stream =
      decodeUtf8 (outputOf stream events) ↔ Uncut (chunksOf stream events) := by
  have hall : fitting constraints 0 (chunksOf stream events) = chunksOf stream events :=
    fitting_of_le (by rwa [Nat.zero_add])
  rw [text_collectOutput, hall, decodeUtf8, String.ofList_inj]
  exact Encoding.decodeChunks_iff

/-! ### Every cut -/

/-- A limit that no byte exceeds, and where a byte fits, separate bytes that all fit. -/
structure CutFree (constraints : RequiredConstraints) (output : OutputStream → List Nat) : Prop where
  limit : fits constraints [] = true
  separate : ∀ stream, (fits constraints (output stream) = true ∧ Separate (output stream)) ∨
    JsNumber.gt 1 constraints.maxOutputBytes = true

variable {output : OutputStream → List Nat}

theorem not_fits_iff (h : fits constraints [] = true) :
    fits constraints bytes = false ↔
      JsNumber.gt bytes.length constraints.maxOutputBytes = true := by
  have hne := (JsNumber.not_nan_of_le h).2
  rw [fits, JsNumber.gt_eq_not_le (JsNumber.natCast_ne_nan _) hne, Bool.not_eq_true']

theorem eq_nil_of_fits (hgt : JsNumber.gt 1 constraints.maxOutputBytes = true)
    (h : fits constraints bytes = true) : bytes = [] := by
  by_contra hne
  have hpos : 1 ≤ bytes.length := List.length_pos_iff.mpr hne
  exact absurd hgt (Bool.eq_false_iff.mp (not_gt_of_fits h hpos))

theorem CutFree.separate_of_fits (h : CutFree constraints output)
    (hfits : fits constraints (output stream) = true) : Separate (output stream) := by
  rcases h.separate stream with ⟨-, hsep⟩ | hgt
  · exact hsep
  · rw [eq_nil_of_fits hgt hfits]
    exact List.IsChain.nil

theorem exists_not_fits (constraints : RequiredConstraints) (output : OutputStream → List Nat) :
    (∃ stream, fits constraints (output stream) = false) ↔
      (!(fits constraints (output .stdout) && fits constraints (output .stderr))) = true := by
  rw [Bool.not_eq_true', Bool.and_eq_false_iff]
  constructor
  · rintro ⟨stream, h⟩
    cases stream with
    | stdout => exact .inl h
    | stderr => exact .inr h
  · rintro (h | h)
    · exact ⟨_, h⟩
    · exact ⟨_, h⟩

/-- What is captured of such an output: all of a stream, or nothing. -/
theorem CutFree.capture_eq (h : CutFree constraints output)
    (hevents : ∀ stream, outputOf stream events = output stream) :
    (collectOutput constraints violations events).capture =
      ⟨fun stream => if fits constraints (output stream) then decodeUtf8 (output stream) else "",
        !(fits constraints (output .stdout) && fits constraints (output .stderr))⟩ := by
  have htext (stream : OutputStream) :
      (collectOutput constraints violations events).capture.text stream =
        if fits constraints (output stream) then decodeUtf8 (output stream) else "" := by
    split
    · next hfits =>
      have hsep := h.separate_of_fits hfits
      rw [← hevents] at hfits hsep ⊢
      exact (text_eq_iff hfits).mpr (Separate.uncut hsep)
    · next hfits =>
      -- no byte fits, and events without bytes have no text
      have hgt := (h.separate stream).resolve_left fun hall => hfits hall.1
      have hpart := (fitting_spec (n := 0) h.limit (chunksOf stream events)).2
      rw [Nat.zero_add] at hpart
      have hnil := eq_nil_of_fits hgt hpart
      have huncut : Uncut (fitting constraints 0 (chunksOf stream events)) :=
        Separate.uncut (hnil ▸ List.IsChain.nil)
      rw [text_collectOutput, Encoding.decodeChunks_of_uncut huncut, hnil]
      rfl
  have htruncated : (collectOutput constraints violations events).capture.truncated = true ↔
      ∃ stream, fits constraints (output stream) = false := by
    rw [truncated_collectOutput]
    refine exists_congr fun stream => ?_
    rw [not_fits_iff h.limit, ← hevents]
    refine and_iff_right_of_imp fun hgt hnone => ?_
    rw [outputOf, hnone, ← not_fits_iff h.limit] at hgt
    exact Bool.false_ne_true (hgt.symm.trans h.limit)
  rw [Capture.ext_iff]
  exact ⟨funext htext, Bool.eq_iff_iff.mpr (htruncated.trans (exists_not_fits constraints output))⟩

/-- Events that bring given chunks. -/
def eventsOf (chunks : OutputStream → List (List Nat)) : List DataEvent :=
  (chunks .stdout).map (⟨.stdout, ·⟩) ++ (chunks .stderr).map (⟨.stderr, ·⟩)

theorem chunksOf_eventsOf (chunks : OutputStream → List (List Nat)) (stream : OutputStream) :
    chunksOf stream (eventsOf chunks) = chunks stream := by
  cases stream <;> simp [chunksOf, eventsOf, List.filter_map, Function.comp_def]

theorem outputOf_eventsOf {chunks : OutputStream → List (List Nat)}
    (h : ∀ stream, (chunks stream).flatten = output stream) (stream : OutputStream) :
    outputOf stream (eventsOf chunks) = output stream := by
  rw [outputOf, chunksOf_eventsOf, h]

theorem CutFree.capturesAnyCut (h : CutFree constraints output) :
    CapturesAnyCut constraints violations output := by
  refine ⟨fun events hevents => ?_, fun events events' hevents hevents' => ?_⟩
  · rw [h.capture_eq hevents]
    refine ⟨fun stream hfits => ?_, fun stream hfits => ?_, ?_⟩
    · rw [hevents] at hfits ⊢
      exact if_pos hfits
    · rw [hevents] at hfits
      refine ⟨[], List.nil_prefix, h.limit, ?_⟩
      exact if_neg (Bool.eq_false_iff.mp hfits)
    · simp only [hevents]
      exact (exists_not_fits constraints output).symm
  · rw [h.capture_eq hevents, h.capture_eq hevents']

/-- Each byte in an event of its own: the first one is captured if it fits. -/
theorem text_singles_ne (hlimit : JsNumber.le 1 constraints.maxOutputBytes = true)
    (hne : bytes ≠ []) : decodeChunks (fitting constraints 0 (singles bytes)) ≠ [] := by
  cases bytes with
  | nil => exact absurd rfl hne
  | cons b bytes =>
    have hgt : JsNumber.gt (0 + [b].length : Nat) constraints.maxOutputBytes = false :=
      not_gt_of_fits (n := 1) hlimit (Nat.le_refl _)
    change decodeChunks (fitting constraints 0 ([b] :: singles bytes)) ≠ []
    rw [fitting, if_neg (Bool.eq_false_iff.mp hgt), decodeChunks, List.flatMap_cons]
    exact fun h => Encoding.decodeFrom_ne_nil none b (List.append_eq_nil_iff.mp h).1

theorem cutFree_of_capturesAnyCut (h : CapturesAnyCut constraints violations output) :
    CutFree constraints output := by
  have hwhole : ∀ stream, outputOf stream (eventsOf fun stream => [output stream]) =
      output stream := outputOf_eventsOf fun stream => by simp
  have hsingles : ∀ stream, outputOf stream (eventsOf fun stream => singles (output stream)) =
      output stream := outputOf_eventsOf fun stream => Encoding.flatten_singles _
  have hlimit : fits constraints [] = true := by
    have hzero {bytes : List Nat} (hfits : fits constraints bytes = true) :
        fits constraints [] = true := by
      have hgt := not_gt_of_fits hfits (Nat.zero_le _)
      rwa [JsNumber.gt_eq_not_le (JsNumber.natCast_ne_nan _) (JsNumber.not_nan_of_le hfits).2,
        Bool.not_eq_false'] at hgt
    have hcaptures := h.1 _ hwhole
    cases hfits : fits constraints (output .stdout) with
    | true => exact hzero hfits
    | false =>
      rw [← hwhole .stdout] at hfits
      obtain ⟨front, -, hfront, -⟩ := hcaptures.part .stdout hfits
      exact hzero hfront
  refine ⟨hlimit, fun stream => ?_⟩
  rw [or_iff_not_imp_right]
  intro hone
  have hle : JsNumber.le 1 constraints.maxOutputBytes = true := by
    change ¬JsNumber.gt (1 : Nat) constraints.maxOutputBytes = true at hone
    rwa [JsNumber.gt_eq_not_le (JsNumber.natCast_ne_nan 1) (JsNumber.not_nan_of_le hlimit).2,
      Bool.not_eq_true', Bool.not_eq_false] at hone
  have hfits : fits constraints (output stream) = true := by
    rw [← Bool.not_eq_false]
    intro hno
    have hgt := (not_fits_iff hlimit).mp hno
    have hne : output stream ≠ [] := by
      intro hnil
      rw [hnil, hlimit] at hno
      cases hno
    -- one event with everything is dropped, and of single bytes the first one is captured
    have htext := congrArg (fun c => c.text stream) (h.2 _ _ hwhole hsingles)
    simp only [text_collectOutput, chunksOf_eventsOf, String.ofList_inj] at htext
    rw [fitting, if_pos (by simpa using hgt)] at htext
    exact text_singles_ne hle hne htext.symm
  refine ⟨hfits, Encoding.uncut_singles_iff.mp ?_⟩
  have hcaptures := h.1 _ hsingles
  rw [← hsingles stream] at hfits
  have huncut := (text_eq_iff hfits).mp (hcaptures.whole stream hfits)
  rwa [chunksOf_eventsOf] at huncut

/-- Within the limit the output is captured exactly if no event ends inside a character. Every cut
of an output gives the same exactly if all of it fits and no two bytes of it belong together, or if
not even one byte fits. -/
theorem captured_iff (constraints : RequiredConstraints) (violations : List SandboxViolation) :
    (∀ events, (∀ stream, fits constraints (outputOf stream events) = true) →
      (Captures constraints events (collectOutput constraints violations events).capture ↔
        ∀ stream, Uncut (chunksOf stream events))) ∧
    ∀ output, CapturesAnyCut constraints violations output ↔ CutFree constraints output := by
  refine ⟨fun events hfits => ?_, fun output =>
    ⟨cutFree_of_capturesAnyCut, CutFree.capturesAnyCut⟩⟩
  constructor
  · exact fun h stream => (text_eq_iff (hfits stream)).mp (h.whole stream (hfits stream))
  · intro huncut
    refine ⟨fun stream h => (text_eq_iff h).mpr (huncut stream), fun stream h => ?_, ?_⟩
    · rw [hfits stream] at h
      cases h
    · rw [truncated_collectOutput]
      refine iff_of_false ?_ ?_
      · rintro ⟨stream, -, hgt⟩
        have hle := not_gt_of_fits (hfits stream) (Nat.le_refl _)
        exact Bool.false_ne_true (hle.symm.trans hgt)
      · rintro ⟨stream, hno⟩
        rw [hfits stream] at hno
        cases hno

theorem captured_plain :
    Captures DEFAULT_CONSTRAINTS [⟨.stdout, [111]⟩, ⟨.stdout, [107]⟩]
      (collectOutput DEFAULT_CONSTRAINTS [] [⟨.stdout, [111]⟩, ⟨.stdout, [107]⟩]).capture :=
  ((captured_iff DEFAULT_CONSTRAINTS []).1 _ fun stream => by cases stream <;> decide).mpr
    fun stream => by cases stream <;> decide

/-- The two bytes of an `é` in two events become two replacement characters. -/
theorem captured_cut :
    (collectOutput DEFAULT_CONSTRAINTS [] [⟨.stdout, [195]⟩, ⟨.stdout, [169]⟩]).capture.text
        .stdout = "\uFFFD\uFFFD" ∧
      (collectOutput DEFAULT_CONSTRAINTS [] [⟨.stdout, [195, 169]⟩]).capture.text .stdout = "é" ∧
      ¬∀ constraints violations output, fits constraints [] = true →
        CapturesAnyCut constraints violations output := by
  refine ⟨by decide, by decide, fun h => ?_⟩
  have hall := h DEFAULT_CONSTRAINTS [] (outputOf · [⟨.stdout, [195, 169]⟩]) (by decide)
  have heq := congrArg (fun c => c.text .stdout) (hall.2 [⟨.stdout, [195]⟩, ⟨.stdout, [169]⟩]
    [⟨.stdout, [195, 169]⟩] (fun stream => by cases stream <;> rfl) fun _ => rfl)
  revert heq
  decide

end KirkForge
