import KirkForge.Theory.JsonText
import KirkForge.Theory.Occurrence
import KirkForge.Theory.RegexReplacement

/-!
# Log lines

What the console transport writes (`core-logging/src/index.ts`): the JSON of an entry, scrubbed as a
text. A name and its value are divided by a quotation mark there, so that the pattern for pairs of a
name and a value never reads the value of a property. A value is hidden if it is not written as it
is, or if a pattern finds something in the value itself (`line_hides`).
-/

/-!
## The scrubber

`scrubSecrets` (`core-logging/src/scrubber.ts`), on the code units of a text. Each pattern keeps at
most a beginning of what it matches. All but the last read no quotation mark, so that they treat the
strings of a JSON text one by one (`scrub_append_cons`).
-/

namespace KirkForge.CoreLogging

open Regex

structure SecretPattern where
  pattern : Units
  replacement : String

/-- The text of a replacement, in which `$` and a digit stand for a group. -/
def expand (groups : List (Nat × List Nat)) : List Char → List Nat
  | [] => []
  | [c] => Text.utf16 (String.singleton c)
  | c :: d :: cs =>
    if c = '$' ∧ d.isDigit then
      ((groups.lookup (d.toNat - '0'.toNat)).getD []) ++ expand groups cs
    else Text.utf16 (String.singleton c) ++ expand groups (d :: cs)

/-- `[A-Za-z0-9_-]` -/
def isKeyUnit (u : Nat) : Bool := isAlphanum u || oneOf "_-" u

def secretNames : List String :=
  ["api_key", "apikey", "api-key", "secret", "password", "token"]

/-- `/\b(sk-[A-Za-z0-9_-]{20,})\b/` -/
def skKey : Units :=
  concat [boundary, group 1 (seq (literal false "sk-") (atLeast 20 (set isKeyUnit))), boundary]

/-- `/\b(sk-ant-[A-Za-z0-9_-]{20,})\b/` -/
def skAntKey : Units :=
  concat [boundary, group 1 (seq (literal false "sk-ant-") (atLeast 20 (set isKeyUnit))), boundary]

/-- `/Bearer\s+[…]+=*/`, with the units of a token -/
def bearerToken : Units :=
  concat [literal false "Bearer", plus (set isSpace),
    plus (set fun u => isAlphanum u || oneOf "._~+/-" u), star true (set (oneOf "="))]

/-- `/\b(AKIA[0-9A-Z]{16})\b/` -/
def awsKey : Units :=
  concat [boundary,
    group 1 (seq (literal false "AKIA") (times 16 (set fun u => isDigit u || isUpper u))), boundary]

/-- `/(api_key|apikey|api-key|secret|password|token)\s*[:=]\s*[^\s,}"]+/i` -/
def keyValue : Units :=
  concat [group 1 (choice (secretNames.map (literal true))), star true (set isSpace),
    set (oneOf ":="), star true (set isSpace), plus (set fun u => !isSpace u && !oneOf r#",}""# u)]

/-- `/\beyJ[A-Za-z0-9_-]{20,}\.[A-Za-z0-9_-]{20,}\.[A-Za-z0-9_-]{10,}\b/` -/
def jwt : Units :=
  concat [boundary, literal false "eyJ", atLeast 20 (set isKeyUnit), literal false ".",
    atLeast 20 (set isKeyUnit), literal false ".", atLeast 10 (set isKeyUnit), boundary]

/-- `-----BEGIN` or `-----END`, and `(?:RSA |EC )?PRIVATE KEY-----` -/
def keyLine (word : String) : Units :=
  concat [literal false ("-----" ++ word ++ " "),
    Regex.optional (alt (literal false "RSA ") (literal false "EC ")),
    literal false "PRIVATE KEY-----"]

def privateKey : Units :=
  concat [keyLine "BEGIN", star false (set fun _ => true), keyLine "END"]

/-- The patterns that are tried before the one for private keys. -/
def linePatterns : List SecretPattern :=
  [⟨skKey, "sk-***REDACTED***"⟩, ⟨skAntKey, "sk-ant-***REDACTED***"⟩,
    ⟨bearerToken, "Bearer ***REDACTED***"⟩, ⟨awsKey, "AKIA***REDACTED***"⟩,
    ⟨keyValue, "$1=***REDACTED***"⟩, ⟨jwt, "***JWT-REDACTED***"⟩]

def privateKeyPattern : SecretPattern := ⟨privateKey, "***PRIVATE-KEY-REDACTED***"⟩

def SECRET_PATTERNS : List SecretPattern := linePatterns ++ [privateKeyPattern]

/-- `text.replace(pattern, replacement)` -/
def SecretPattern.apply (p : SecretPattern) (text : List Nat) : List Nat :=
  replaceAll isWord p.pattern (fun _ groups => expand groups p.replacement.toList) text

def scrub (patterns : List SecretPattern) (text : List Nat) : List Nat :=
  patterns.foldl (fun result p => p.apply result) text

def scrubSecrets (text : List Nat) : List Nat := scrub SECRET_PATTERNS text

/-! ### What is left of a match -/

/-- What a pattern leaves of a match, and what it writes after it. -/
inductive Remains : List Nat → List Nat → Prop
  | sk : Remains (Text.utf16 "sk-") (Text.utf16 "***REDACTED***")
  | skAnt : Remains (Text.utf16 "sk-ant-") (Text.utf16 "***REDACTED***")
  | bearer : Remains (Text.utf16 "Bearer") (Text.utf16 " ***REDACTED***")
  | aws : Remains (Text.utf16 "AKIA") (Text.utf16 "***REDACTED***")
  | keyValue {name : String} {kept : List Nat} (hname : name ∈ secretNames)
    (hkept : List.Forall₂ (fun u v => Regex.unit true u v = true) (Text.utf16 name) kept) :
    Remains kept (Text.utf16 "=***REDACTED***")
  | jwt : Remains [] (Text.utf16 "***JWT-REDACTED***")
  | privateKey : Remains [] (Text.utf16 "***PRIVATE-KEY-REDACTED***")

/-- Wherever the scrubber writes something, `v` is before it or after it. -/
def Foreign (v : List Nat) : Prop := ∀ kept made, Remains kept made → Apart v kept made

/-- Everything that is written begins with one of three units and ends with an asterisk. -/
theorem foreign_of_notMem {v : List Nat} (h : ∀ u ∈ Text.utf16 "*= ", u ∉ v)
    (hin : ∀ made ∈ ["***JWT-REDACTED***", "***PRIVATE-KEY-REDACTED***", " ***REDACTED***",
      "=***REDACTED***"], ¬v <:+: Text.utf16 made) : Foreign v := by
  have hstar : 42 ∉ v := h 42 (by decide)
  have hequals : 61 ∉ v := h 61 (by decide)
  have hblank : 32 ∉ v := h 32 (by decide)
  have hredacted : ¬v <:+: Text.utf16 "***REDACTED***" := fun hv =>
    hin " ***REDACTED***" (by decide) (hv.trans ⟨Text.utf16 " ", [], rfl⟩)
  intro kept made hremains
  cases hremains with
  | sk | skAnt | aws => exact apart_of_ends rfl rfl hstar hstar hredacted
  | bearer => exact apart_of_ends rfl rfl hblank hstar (hin _ (by decide))
  | keyValue => exact apart_of_ends rfl rfl hequals hstar (hin _ (by decide))
  | jwt | privateKey => exact apart_of_ends rfl rfl hstar hstar (hin _ (by decide))

variable {v : List Nat}

theorem replaces_of_starts {r : Units} {kept made : List Nat} {replacement : String}
    (hr : Starts isWord r kept) (hlt : kept.length < r.least)
    (hexpand : ∀ groups, expand groups replacement.toList = kept ++ made)
    (h : Apart v kept made) :
    Replaces isWord r (fun _ groups => expand groups replacement.toList) v := by
  intro prev rest c hexec
  have hread := exec_reads hexec
  have hleast := hread.length_add_least
  obtain ⟨lost, huntil, hlost⟩ := hread.exists_until_eq (hr _ _ hread) (by omega)
  exact ⟨kept, lost, made, huntil, hlost, hexpand _, h⟩

/-- Of a pair the name is left, in the case in which it is written. -/
theorem replaces_keyValue (h : Foreign v) :
    Replaces isWord keyValue (fun _ groups => expand groups "$1=***REDACTED***".toList) v := by
  intro prev rest c hexec
  have hread := exec_reads hexec
  cases id hread with
  | seq hname hvalue =>
    cases hname with
    | @group _ _ _ m hname =>
      have hgroups := hvalue.groups_eq (by decide)
      have hsuffix := hname.suffix.length_le
      have hleast := hvalue.length_add_least
      have huntil := hname.until_append
      obtain ⟨r, hr, hliteral⟩ := hname.exists_choice
      obtain ⟨name, hname', rfl⟩ := List.mem_map.mp hr
      obtain ⟨kept, hkept, hunits⟩ := hliteral.exists_literal
      have hgroup : (⟨prev, rest, []⟩ : Cursor Nat).until m = kept :=
        List.append_cancel_right (huntil.trans hkept)
      have hlength := congrArg List.length hkept
      rw [List.length_append] at hlength
      obtain ⟨lost, hlost, hne⟩ := hread.exists_until_eq ⟨_, hkept.symm⟩ (by
        change c.rest.length + 2 ≤ m.rest.length at hleast
        omega)
      refine ⟨kept, lost, _, hlost, hne, ?_, h _ _ (.keyValue hname' hunits)⟩
      rw [hgroups, hgroup]
      rfl

theorem replaces (h : Foreign v) : ∀ p ∈ SECRET_PATTERNS,
    Replaces isWord p.pattern (fun _ groups => expand groups p.replacement.toList) v := by
  intro p hp
  simp only [SECRET_PATTERNS, linePatterns, privateKeyPattern, List.cons_append, List.nil_append,
    List.mem_cons, List.not_mem_nil, or_false] at hp
  obtain rfl | rfl | rfl | rfl | rfl | rfl | rfl := hp
  · exact replaces_of_starts (starts_literal "sk-").seq.group.seq.after_boundary (by decide)
      (fun _ => rfl) (h _ _ .sk)
  · exact replaces_of_starts (starts_literal "sk-ant-").seq.group.seq.after_boundary (by decide)
      (fun _ => rfl) (h _ _ .skAnt)
  · exact replaces_of_starts (starts_literal "Bearer").seq (by decide) (fun _ => rfl)
      (h _ _ .bearer)
  · exact replaces_of_starts (starts_literal "AKIA").seq.group.seq.after_boundary (by decide)
      (fun _ => rfl) (h _ _ .aws)
  · exact replaces_keyValue h
  · exact replaces_of_starts (starts_nil jwt) (by decide) (fun _ => rfl) (h _ _ .jwt)
  · exact replaces_of_starts (starts_nil privateKey) (by decide) (fun _ => rfl)
      (h _ _ .privateKey)

/-! ### Runs of the patterns -/

variable {patterns : List SecretPattern} {text x y : List Nat}

theorem infix_of_infix_scrub
    (h : ∀ p ∈ patterns,
      Replaces isWord p.pattern (fun _ groups => expand groups p.replacement.toList) v)
    (hv : v <:+: scrub patterns text) : v <:+: text := by
  induction patterns generalizing text with
  | nil => exact hv
  | cons p patterns ih =>
    have hv' : v <:+: p.apply text := ih (fun p' hp' => h p' (List.mem_cons_of_mem p hp')) hv
    exact infix_of_infix_replaceAll (h p List.mem_cons_self) hv'

theorem scrub_append_cons {q : Nat} (hq : isWord q = false)
    (h : ∀ p ∈ patterns, p.pattern.avoids q = true) :
    scrub patterns (x ++ q :: y) = scrub patterns x ++ q :: scrub patterns y := by
  induction patterns generalizing x y with
  | nil => rfl
  | cons p patterns ih =>
    have hp : p.apply (x ++ q :: y) = p.apply x ++ q :: p.apply y :=
      replaceAll_append_cons hq (h p List.mem_cons_self) x y
    exact (congrArg (scrub patterns) hp).trans
      (ih fun p' hp' => h p' (List.mem_cons_of_mem p hp'))

theorem scrub_of_not_test (h : ∀ p ∈ patterns, test isWord p.pattern text = false) :
    scrub patterns text = text := by
  induction patterns with
  | nil => rfl
  | cons p patterns ih =>
    have hp : p.apply text = text := replaceAll_of_not_test (h p List.mem_cons_self)
    exact (congrArg (scrub patterns) hp).trans
      (ih fun p' hp' => h p' (List.mem_cons_of_mem p hp'))

/-- A text in which one of the patterns finds something does not come through them. -/
theorem not_infix_scrub_self
    (h : ∀ p ∈ patterns,
      Replaces isWord p.pattern (fun _ groups => expand groups p.replacement.toList) v)
    (hfound : ∃ p ∈ patterns, test isWord p.pattern v = true) : ¬v <:+: scrub patterns v := by
  induction patterns with
  | nil =>
    obtain ⟨p, hp, -⟩ := hfound
    cases hp
  | cons p patterns ih =>
    have htail : ∀ p ∈ patterns,
        Replaces isWord p.pattern (fun _ groups => expand groups p.replacement.toList) v :=
      fun p' hp' => h p' (List.mem_cons_of_mem p hp')
    by_cases hp : test isWord p.pattern v = true
    · intro hv
      exact not_infix_replaceAll_self (h p List.mem_cons_self) hp (infix_of_infix_scrub htail hv)
    · have hsame : p.apply v = v := replaceAll_of_not_test (Bool.eq_false_iff.mpr hp)
      obtain ⟨p', hp', hfound⟩ := hfound
      obtain rfl | hp' := List.mem_cons.mp hp'
      · exact absurd hfound hp
      · intro hv
        have hv' : v <:+: scrub patterns (p.apply v) := hv
        rw [hsame] at hv'
        exact ih htail ⟨p', hp', hfound⟩ hv'

theorem linePatterns_avoid : ∀ p ∈ linePatterns, p.pattern.avoids 34 = true := by decide

theorem scrubSecrets_eq (text : List Nat) :
    scrubSecrets text = privateKeyPattern.apply (scrub linePatterns text) := by
  rw [scrubSecrets, SECRET_PATTERNS, scrub, List.foldl_append]
  rfl

/-- A text between quotation marks in which a pattern finds something, and which is nowhere else,
is nowhere afterwards. -/
theorem not_infix_scrubSecrets (hv : 34 ∉ v) (h : Foreign v)
    (hfound : ∃ p ∈ SECRET_PATTERNS, test isWord p.pattern v = true) (hx : ¬v <:+: x)
    (hy : ¬v <:+: y) : ¬v <:+: scrubSecrets (x ++ 34 :: (v ++ 34 :: y)) := by
  have hline : ∀ p ∈ linePatterns,
      Replaces isWord p.pattern (fun _ groups => expand groups p.replacement.toList) v :=
    fun p hp => replaces h p (List.mem_append_left _ hp)
  have hprivate := replaces h privateKeyPattern (List.mem_append_right _ (List.mem_singleton_self _))
  rw [scrubSecrets_eq]
  by_cases hfirst : ∃ p ∈ linePatterns, test isWord p.pattern v = true
  · intro hleft
    have hmid := infix_of_infix_replaceAll hprivate hleft
    rw [scrub_append_cons (by decide) linePatterns_avoid,
      scrub_append_cons (by decide) linePatterns_avoid, Text.infix_append_cons hv,
      Text.infix_append_cons hv] at hmid
    obtain hmid | hmid | hmid := hmid
    · exact hx (infix_of_infix_scrub hline hmid)
    · exact not_infix_scrub_self hline hfirst hmid
    · exact hy (infix_of_infix_scrub hline hmid)
  · have hlast : test isWord privateKey v = true := by
      obtain ⟨p, hp, hfound⟩ := hfound
      obtain hp | hp := List.mem_append.mp hp
      · exact absurd ⟨p, hp, hfound⟩ hfirst
      · cases List.mem_singleton.mp hp
        exact hfound
    refine not_infix_replaceAll (by decide) (fun prev rest c hexec => ?_) (fun _ _ => ?_) hlast _
    · have hleast := (exec_reads hexec).length_add_least
      change c.rest.length + 52 ≤ rest.length at hleast
      omega
    · exact h _ _ .privateKey

/-- Where no private key begins, a text between quotation marks stays if no pattern finds anything
in it. -/
theorem infix_scrubSecrets {body : List Nat}
    (hnone : ∀ p ∈ linePatterns, test isWord p.pattern body = false)
    (hkey : ¬Text.utf16 "-----BEGIN" <:+: x ++ 34 :: (body ++ 34 :: y)) :
    body <:+: scrubSecrets (x ++ 34 :: (body ++ 34 :: y)) := by
  have hforeign : Foreign (Text.utf16 "-----BEGIN") := foreign_of_notMem (by decide) (by decide)
  have hline : ¬Text.utf16 "-----BEGIN" <:+: scrub linePatterns (x ++ 34 :: (body ++ 34 :: y)) :=
    fun hmid => hkey (infix_of_infix_scrub
      (fun p hp => replaces hforeign p (List.mem_append_left _ hp)) hmid)
  have htest : test isWord privateKey (scrub linePatterns (x ++ 34 :: (body ++ 34 :: y))) = false := by
    refine Bool.eq_false_iff.mpr fun htest => hline ?_
    obtain ⟨before, rest, prev, hsplit, hexec⟩ := exists_exec_of_testFrom htest
    obtain ⟨c, hc⟩ := Option.isSome_iff_exists.mp hexec
    have hstart : Text.utf16 "-----BEGIN " <+: rest :=
      (starts_literal "-----BEGIN ").seq.seq _ _ (exec_reads hc)
    rw [hsplit]
    exact ((List.prefix_append _ (Text.utf16 " ")).trans hstart).isInfix.trans
      (List.suffix_append _ _).isInfix
  have hsame : privateKeyPattern.apply (scrub linePatterns (x ++ 34 :: (body ++ 34 :: y))) =
      scrub linePatterns (x ++ 34 :: (body ++ 34 :: y)) := replaceAll_of_not_test htest
  rw [scrubSecrets_eq, hsame, scrub_append_cons (by decide) linePatterns_avoid,
    scrub_append_cons (by decide) linePatterns_avoid, scrub_of_not_test hnone]
  exact ⟨scrub linePatterns x ++ [34], 34 :: scrub linePatterns y, by simp⟩

end KirkForge.CoreLogging

/-! ## Lines -/

namespace KirkForge.CoreLogging

open Regex

inductive LogLevel
  | trace | debug | info | warn | error
  deriving DecidableEq, Repr

def LogLevel.name : LogLevel → String
  | trace => "trace"
  | debug => "debug"
  | info => "info"
  | warn => "warn"
  | error => "error"

structure LogEntry where
  timestamp : String
  level : LogLevel
  message : String
  context : Option Json := none

/-- What `JSON.stringify` makes of an entry. -/
def LogEntry.json (entry : LogEntry) : Json :=
  .obj ([("timestamp", .str entry.timestamp), ("level", .str entry.level.name),
    ("message", .str entry.message)] ++ entry.context.toList.map fun context => ("context", context))

def LogEntry.text (entry : LogEntry) : List Nat :=
  Text.utf16 (String.ofList (JsValue.stringify entry.json))

inductive Stream
  | stdout | stderr
  deriving DecidableEq, Repr

namespace ConsoleTransport

/-- `scrubSecrets(JSON.stringify(entry))` -/
def line (entry : LogEntry) : List Nat := scrubSecrets entry.text

/-- The stream that is written to, and what is written. -/
def write (stream : Stream) (entry : LogEntry) : Stream × List Nat :=
  if stream = .stderr ∨ entry.level = .error then (.stderr, line entry ++ Text.utf16 "\n")
  else if entry.level = .warn then (.stderr, line entry ++ Text.utf16 "\n")
  else (.stdout, line entry ++ Text.utf16 "\n")

end ConsoleTransport

/-! ### A value in the context of an entry -/

/-- An entry with a place in its context. -/
structure Place where
  timestamp : String
  level : LogLevel
  message : String
  hole : Json.Hole

/-- The entry with a string at the place. -/
def Place.entry (p : Place) (v : String) : LogEntry :=
  { timestamp := p.timestamp, level := p.level, message := p.message,
    context := some (p.hole.fill (.str v)) }

def isSecretName (key : String) : Bool := secretNames.contains (Text.toLowerCase key)

/-- The units between the quotation marks around a string. -/
def written (v : String) : List Nat :=
  Text.utf16 (String.ofList (v.toList.flatMap JsValue.quoteChar))

/-- Every character is written as it is. -/
def Plain (v : String) : Prop := ∀ c ∈ v.toList, JsValue.quoteChar c = [c]

instance (v : String) : Decidable (Plain v) := List.decidableBAll _ _

/-- One of the patterns finds something in the units. -/
def Found (units : List Nat) : Prop :=
  ∃ p ∈ SECRET_PATTERNS, test isWord p.pattern units = true

instance (units : List Nat) : Decidable (Found units) := inferInstanceAs (Decidable (∃ _ ∈ _, _))

theorem utf16_ofList_append (cs ds : List Char) : Text.utf16 (String.ofList (cs ++ ds)) =
    Text.utf16 (String.ofList cs) ++ Text.utf16 (String.ofList ds) := by
  rw [← Text.utf16_append, String.ofList_append]

theorem written_of_plain {v : String} (h : Plain v) : written v = Text.utf16 v := by
  have hsame : v.toList.flatMap JsValue.quoteChar = v.toList := by
    rw [List.flatMap_congr h, List.flatMap_singleton']
  rw [written, hsame, String.ofList_toList]

/-- A unit of a text below the surrogates is the code of a character. -/
theorem mem_utf16 {u : Nat} (hu : u < 0xD800) {v : String} (h : u ∈ Text.utf16 v) :
    ∃ c ∈ v.toList, c.toNat = u := by
  obtain ⟨c, hc, hmem⟩ := List.mem_flatMap.mp h
  refine ⟨c, hc, ?_⟩
  split at hmem
  · exact (List.mem_singleton.mp hmem).symm
  · simp only [List.mem_cons, List.not_mem_nil, or_false] at hmem
    omega

theorem quote_notMem_of_plain {v : String} (h : Plain v) : 34 ∉ Text.utf16 v := by
  intro hmem
  obtain ⟨c, hc, hcode⟩ := mem_utf16 (by decide) hmem
  obtain rfl : c = '"' := Char.toNat_inj.mp hcode
  exact absurd (h _ hc) (by decide)

theorem utf16_quoted (cs : List Char) : Text.utf16 (String.ofList ('"' :: (cs ++ ['"']))) =
    34 :: (Text.utf16 (String.ofList cs) ++ [34]) := by
  rw [← List.singleton_append, utf16_ofList_append, utf16_ofList_append]
  rfl

/-- The text of an entry around a string in it. -/
theorem Place.exists_text (p : Place) : ∃ x y, ∀ v,
    (p.entry v).text = x ++ 34 :: (written v ++ 34 :: y) := by
  obtain ⟨front, back, h⟩ := Json.exists_stringify_fill
    (.field [("timestamp", .str p.timestamp), ("level", .str p.level.name),
      ("message", .str p.message)] "context" p.hole [])
  refine ⟨Text.utf16 (String.ofList front), Text.utf16 (String.ofList back), fun v => ?_⟩
  have htext : JsValue.stringify (p.entry v).json =
      front ++ ('"' :: (v.toList.flatMap JsValue.quoteChar ++ ['"'])) ++ back := h (.str v)
  rw [LogEntry.text, htext, utf16_ofList_append, utf16_ofList_append, utf16_quoted, ← written]
  simp

/-! ### What is hidden -/

/-- Let `v` be the value of a property of any name, at any depth, and nowhere else in the entry, and
let it meet nothing that the scrubber writes. It is hidden if it is not in the JSON text, or if it
is written as it is and a pattern finds something in it. In an entry in which no private key begins
it is not hidden if it is in what is written for it and no pattern finds anything there. -/
theorem ConsoleTransport.line_hides (p : Place) (v : String)
    (honce : ¬Text.utf16 v <:+: (p.entry "").text) :
    (Foreign (Text.utf16 v) →
      ¬Text.utf16 v <:+: (p.entry v).text ∨ Plain v ∧ Found (Text.utf16 v) →
        ¬Text.utf16 v <:+: line (p.entry v)) ∧
    (¬Text.utf16 "-----BEGIN" <:+: (p.entry v).text → Text.utf16 v <:+: written v →
      ¬Found (written v) → Text.utf16 v <:+: line (p.entry v)) := by
  obtain ⟨x, y, htext⟩ := p.exists_text
  refine ⟨fun hforeign h => ?_, fun hkey hin hnone => ?_⟩
  · obtain habsent | ⟨hplain, hfound⟩ := h
    · exact fun hv => habsent (infix_of_infix_scrub (replaces hforeign) hv)
    · have hquote := quote_notMem_of_plain hplain
      have hempty : (p.entry "").text = x ++ 34 :: ([] ++ 34 :: y) := htext ""
      rw [hempty, Text.infix_append_cons hquote, Text.infix_append_cons hquote, not_or, not_or]
        at honce
      rw [line, htext, written_of_plain hplain]
      exact not_infix_scrubSecrets hquote hforeign hfound honce.1 honce.2.2
  · rw [htext] at hkey
    rw [line, htext]
    have hline : ∀ s ∈ linePatterns, test isWord s.pattern (written v) = false := fun s hs =>
      Bool.eq_false_iff.mpr fun htest => hnone ⟨s, List.mem_append_left _ hs, htest⟩
    exact hin.trans (infix_scrubSecrets hline hkey)

/-- A log line for a failed login. -/
def loginFailed : Place :=
  { timestamp := "2026-01-01T00:00:00.000Z", level := .warn, message := "login failed",
    hole := .field [("user", .str "ada")] "password" .here [] }

theorem login_lines :
    ¬Text.utf16 "token:abcdefgh" <:+: ConsoleTransport.line (loginFailed.entry "token:abcdefgh") ∧
    Text.utf16 "hunter2hunter2" <:+: ConsoleTransport.line (loginFailed.entry "hunter2hunter2") :=
  ⟨(ConsoleTransport.line_hides loginFailed "token:abcdefgh" (by decide +kernel)).1
      (foreign_of_notMem (by decide) (by decide)) (.inr ⟨by decide, by decide +kernel⟩),
    (ConsoleTransport.line_hides loginFailed "hunter2hunter2" (by decide +kernel)).2
      (by decide +kernel) (by decide) (by decide +kernel)⟩

/-- A password is in the line if no pattern finds anything in it. -/
theorem password_in_log_line : ¬∀ (p : Place) (name v : String),
    p.hole.key? = some name → isSecretName name = true → 8 ≤ (Text.utf16 v).length →
      ¬Text.utf16 v <:+: (p.entry "").text →
        ¬Text.utf16 v <:+: ConsoleTransport.line (p.entry v) := fun h =>
  h loginFailed "password" "hunter2hunter2" rfl (by decide) (by decide) (by decide +kernel)
    (by decide +kernel)

end KirkForge.CoreLogging
