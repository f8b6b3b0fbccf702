import KirkForge.Theory.FencedBlock
import KirkForge.Theory.JsonCoercion
import KirkForge.Theory.JsonRead
import KirkForge.Theory.JsonWeight
import KirkForge.Theory.Scanning

/-!
# Schema contracts

`extractSchemaContract` (`packages/agent-core/src/index.ts`): the JSON object in a model's answer.
It is looked for in the first fenced block, and then in the first block of balanced braces.
-/

namespace KirkForge.AgentCore

/-! ### Balanced braces -/

/-- The variables of the loop; `firstOpen` is `-1` before there is one. -/
structure BraceScan where
  firstOpen : Option Nat := none
  depth : Int := 0
  inString : Option Char := none
  escape : Bool := false
  deriving DecidableEq, Repr

namespace BraceScan

/-- One round of the loop at place `i`. -/
def next (s : BraceScan) (i : Nat) (ch : Char) : BraceScan :=
  if s.escape then { s with escape := false }
  else if ch = '\\' then { s with escape := true }
  else
    match s.inString with
    | some quote => if ch = quote then { s with inString := none } else s
    | none =>
      if ch = '"' ∨ ch = '\x27' then { s with inString := some ch }
      else if ch = '\x7b' then
        { s with firstOpen := if s.depth = 0 then some i else s.firstOpen, depth := s.depth + 1 }
      else if ch = '\x7d' then { s with depth := s.depth - 1 }
      else s

/-- A closing brace outside of strings. -/
def closing (s : BraceScan) (ch : Char) : Bool := !s.escape && s.inString = none && ch = '\x7d'

end BraceScan

/-- The rest of the loop from place `i` on: where the block begins and where it ends. -/
def braces (s : BraceScan) (i : Nat) : List Char → Option (Nat × Nat)
  | [] => none
  | ch :: cs =>
    let s' := s.next i ch
    match s'.firstOpen with
    | some start =>
      if s.closing ch ∧ s'.depth = 0 then some (start, i + 1) else braces s' (i + 1) cs
    | none => braces s' (i + 1) cs

def findBalancedBraceBlock (text : List Char) : Option (List Char) :=
  (braces {} 0 text).map fun (firstOpen, stop) => (text.take stop).drop firstOpen

/-! ### Parsing -/

/-- `safeParse`: the data, if it succeeds. -/
abbrev Schema := Json → Option Json

def tryParse (candidate : List Char) (schema : Schema) : Option Json :=
  match Json.read (String.ofList candidate) with
  | some parsed => schema parsed
  | none =>
    match findBalancedBraceBlock candidate with
    | some inner =>
      if inner ≠ candidate then (Json.read (String.ofList inner)).bind schema else none
    | none => none

def fence : List Char := ['`', '`', '`']

/-- What follows a fence behind `(?:\w+)?\s*\n?`. -/
def skipLabel (opened : List Char) : List Char :=
  Text.trimStart (opened.dropWhile Pattern.isWordChar)

/-- The group of /```(?:\w+)?\s*\n?([\s\S]*?)```/ -/
def codeBlock (text : List Char) : Option (List Char) := Fenced.block fence skipLabel text

/-- The default schema, `z.record(z.string(), z.unknown())`, is that of the library. -/
def extractSchemaContract (record : Schema) (text : List Char) (schema : Option Schema) :
    Option Json :=
  let s := schema.getD record
  let inCodeBlock := (codeBlock text).bind fun block =>
    (tryParse (Text.trimEnd (Text.trimStart block)) s).filter Json.truthy
  inCodeBlock.or ((findBalancedBraceBlock text).bind fun brace =>
    (tryParse brace s).filter Json.truthy)

/-- A schema that accepts every object. -/
def anyRecord : Schema
  | .obj fields => some (.obj fields)
  | _ => none

example : extractSchemaContract anyRecord r#"Sure: {"a": "}"}!"#.toList none =
    some (.obj [("a", .str r"}")]) := by
  decide +kernel

end KirkForge.AgentCore

/-!
## JSON objects in an answer

An object that is written into prose is found, whatever schema accepts it and whatever follows, if
and only if the prose in front of it leaves the scan for braces as it began and the strings of the
object have no fenced block with JSON in it (`extractSchemaContract_iff`). Otherwise something else
than the object is parsed, or nothing: no part of the object's own text is read as the object.
-/

/-!
### Balanced braces around JSON

Inside a block the scan goes over the text of a JSON value without coming to the end of the block
(`quiet_stringify`), so that a block that begins with the text of an object is that text
(`braces_stringify`). Where the scan is on the way through a text is what its variables say; a block
begins only where none of them has been touched.
-/

namespace KirkForge.AgentCore

open BraceScan

variable {s : BraceScan} {i : Nat} {ch : Char} {cs ds : List Char}

theorem braces_cons (h : ¬(s.closing ch = true ∧ (s.next i ch).depth = 0)) :
    braces s i (ch :: cs) = braces (s.next i ch) (i + 1) cs := by
  rw [braces]
  split
  · rw [if_neg h]
  · rfl

/-! ### Inside a block -/

/-- Inside a block and outside of strings. -/
structure Inside (s : BraceScan) : Prop where
  depth : 1 ≤ s.depth
  inString : s.inString = none
  escape : s.escape = false

/-- A text that the scan goes over inside a block and that leaves its variables as they were. -/
def Quiet (cs : List Char) : Prop :=
  ∀ s i rest, Inside s → braces s i (cs ++ rest) = braces s (i + cs.length) rest

/-- A text inside a JSON string. -/
def InString (cs : List Char) : Prop :=
  ∀ s i rest, s.inString = some '"' → s.escape = false →
    braces s i (cs ++ rest) = braces s (i + cs.length) rest

theorem Quiet.nil : Quiet [] := fun _ _ _ _ => rfl

theorem Quiet.append (hc : Quiet cs) (hd : Quiet ds) : Quiet (cs ++ ds) := by
  intro s i rest hs
  rw [List.append_assoc, hc s i _ hs, hd s _ _ hs, List.length_append, Nat.add_assoc]

theorem InString.append (hc : InString cs) (hd : InString ds) : InString (cs ++ ds) := by
  intro s i rest hs hescape
  rw [List.append_assoc, hc s i _ hs hescape, hd s _ _ hs hescape, List.length_append,
    Nat.add_assoc]

theorem inString_flatMap {α : Type*} {l : List α} {f : α → List Char}
    (h : ∀ a ∈ l, InString (f a)) : InString (l.flatMap f) := by
  induction l with
  | nil => exact fun _ _ _ _ _ => rfl
  | cons a l ih =>
    obtain ⟨ha, hl⟩ := List.forall_mem_cons.mp h
    exact ha.append (ih hl)

/-- A character that neither ends a string nor escapes the next one. -/
theorem inString_singleton (hquote : ch ≠ '"') (hslash : ch ≠ '\\') : InString [ch] := by
  intro s i rest hs hescape
  have hnext : s.next i ch = s := by simp [next, hs, hescape, hquote, hslash]
  have hclosing : s.closing ch = false := by simp [closing, hs]
  rw [List.singleton_append, braces_cons (by simp [hclosing]), hnext]
  rfl

/-- A backslash and the character that it escapes. -/
theorem inString_escape (ch : Char) : InString ['\\', ch] := by
  intro s i rest hs hescape
  have hslash : s.next i '\\' = { s with escape := true } := by simp [next, hescape]
  have hback : BraceScan.next { s with escape := true } (i + 1) ch = s := by
    rw [next, if_pos rfl, ← hescape]
  have hclosing : s.closing '\\' = false := by simp [closing]
  have hclosing' : BraceScan.closing { s with escape := true } ch = false := by simp [closing]
  rw [List.cons_append, braces_cons (by simp [hclosing]), hslash, List.singleton_append,
    braces_cons (by simp [hclosing']), hback]
  rfl

theorem inString_quoteChar (ch : Char) : InString (JsValue.quoteChar ch) := by
  have hdigit : ∀ d < 16, Nat.digitChar d ≠ '"' ∧ Nat.digitChar d ≠ '\\' := by decide
  unfold JsValue.quoteChar
  split
  · exact inString_escape ch
  next hspecial =>
  rw [not_or] at hspecial
  split_ifs with h1 h2 h3 h4 h5 h6
  · exact inString_escape 'b'
  · exact inString_escape 't'
  · exact inString_escape 'n'
  · exact inString_escape 'f'
  · exact inString_escape 'r'
  · obtain ⟨hq, hb⟩ := hdigit (ch.toNat / 16) (by omega)
    obtain ⟨hq', hb'⟩ := hdigit (ch.toNat % 16) (by omega)
    have hzero : InString ['0'] := inString_singleton (by decide) (by decide)
    exact ((((inString_escape 'u').append hzero).append hzero).append
      (inString_singleton hq hb)).append (inString_singleton hq' hb')
  · exact inString_singleton hspecial.1 hspecial.2

/-! ### JSON -/

theorem next_of_inside (hs : Inside s) (hslash : ch ≠ '\\') : s.next i ch =
    if ch = '"' ∨ ch = '\x27' then { s with inString := some ch }
    else if ch = '\x7b' then { s with depth := s.depth + 1 }
    else if ch = '\x7d' then { s with depth := s.depth - 1 }
    else s := by
  have hdepth : s.depth ≠ 0 := by
    have := hs.depth
    omega
  simp [next, hs.escape, hs.inString, hslash, hdepth]

/-- A character that a block goes over. -/
theorem quiet_singleton (h : ch ∉ ['"', '\x27', '\\', '\x7b', '\x7d']) : Quiet [ch] := by
  simp only [List.mem_cons, List.not_mem_nil, or_false, not_or] at h
  obtain ⟨hquote, happ, hslash, hopen, hclose⟩ := h
  intro s i rest hs
  have hnext : s.next i ch = s := by simp [next_of_inside hs hslash, hquote, happ, hopen, hclose]
  have hclosing : s.closing ch = false := by simp [closing, hclose]
  rw [List.singleton_append, braces_cons (by simp [hclosing]), hnext]
  rfl

theorem quiet_of_forall (h : ∀ ch ∈ cs, ch ∉ ['"', '\x27', '\\', '\x7b', '\x7d']) : Quiet cs := by
  induction cs with
  | nil => exact .nil
  | cons ch cs ih =>
    obtain ⟨hch, hcs⟩ := List.forall_mem_cons.mp h
    exact (quiet_singleton hch).append (ih hcs)

theorem quiet_quote (text : String) : Quiet (JsValue.quote text) := by
  intro s i rest hs
  have hnext : s.next i '"' = { s with inString := some '"' } := by
    simp [next_of_inside hs (show '"' ≠ '\\' by decide)]
  have hclosing : s.closing '"' = false := by simp [closing]
  have hinside : InString (text.toList.flatMap JsValue.quoteChar) :=
    inString_flatMap fun ch _ => inString_quoteChar ch
  have hback (j : Nat) : BraceScan.next { s with inString := some '"' } j '"' = s := by
    have hsame : { s with inString := none } = s := by rw [← hs.inString]
    simpa [next, hs.escape] using hsame
  have hclosing' : BraceScan.closing { s with inString := some '"' } '"' = false := by simp [closing]
  rw [JsValue.quote, List.cons_append, List.cons_append, braces_cons (by simp [hclosing]), hnext,
    List.append_assoc, hinside { s with inString := some '"' } _ _ rfl hs.escape,
    List.singleton_append, braces_cons (by simp [hclosing']), hback]
  congr 1
  simp
  omega

theorem quiet_commaJoin {texts : List (List Char)} (h : ∀ t ∈ texts, Quiet t) :
    Quiet (Delimited.commaJoin texts) := by
  induction texts with
  | nil => exact .nil
  | cons t texts ih =>
    obtain ⟨ht, htexts⟩ := List.forall_mem_cons.mp h
    cases texts with
    | nil => simpa [Delimited.commaJoin] using ht
    | cons u texts =>
      have hcomma : Quiet [','] := quiet_singleton (by decide)
      rw [Delimited.commaJoin_cons_cons]
      exact ht.append (hcomma.append (ih htexts))

/-- What is between two braces, one level down. -/
theorem Quiet.inBraces (h : Quiet cs) : Quiet ('\x7b' :: cs ++ ['\x7d']) := by
  intro s i rest hs
  have hopen : s.next i '\x7b' = { s with depth := s.depth + 1 } := by
    simp [next_of_inside hs (show '\x7b' ≠ '\\' by decide)]
  have hclosing : s.closing '\x7b' = false := by simp [closing]
  have hinner : Inside { s with depth := s.depth + 1 } :=
    ⟨by have := hs.depth; simp; omega, hs.inString, hs.escape⟩
  have hclose (j : Nat) : BraceScan.next { s with depth := s.depth + 1 } j '\x7d' = s := by
    simp [next_of_inside hinner (show '\x7d' ≠ '\\' by decide)]
  have hdepth : s.depth ≠ 0 := by
    have := hs.depth
    omega
  rw [List.cons_append, List.cons_append, braces_cons (by simp [hclosing]), hopen,
    List.append_assoc, h _ _ _ hinner, List.singleton_append, braces_cons (by simp [hclose, hdepth]),
    hclose]
  congr 1
  simp
  omega

mutual
theorem quiet_stringify (j : Json) : Quiet (JsValue.stringify j) := by
  cases j with
  | num q =>
    rw [JsValue.stringify, JsNumber.text, String.toList_ofList]
    have hall : ∀ ch ∈ JsNumber.numberChars, ch ∉ ['"', '\x27', '\\', '\x7b', '\x7d'] :=
      Text.forall_mem_of_all (by decide)
    exact quiet_of_forall fun ch hch => hall ch (JsNumber.finiteChars_subset q ch hch)
  | arr items =>
    have hopen : Quiet ['['] := quiet_singleton (by decide)
    have hclose : Quiet [']'] := quiet_singleton (by decide)
    exact hopen.append ((quiet_commaJoin (quiet_stringifyItems items)).append hclose)
  | obj fields => exact (quiet_commaJoin (quiet_stringifyFields fields)).inBraces
  | str text => exact quiet_quote text
  | bool b => cases b <;> exact quiet_of_forall (Text.forall_mem_of_all (by decide))
  | null => exact quiet_of_forall (Text.forall_mem_of_all (by decide))

theorem quiet_stringifyItems (items : List Json) :
    ∀ t ∈ JsValue.stringifyItems items, Quiet t := by
  cases items with
  | nil => exact List.forall_mem_nil _
  | cons j items =>
    exact List.forall_mem_cons.mpr ⟨quiet_stringify j, quiet_stringifyItems items⟩

theorem quiet_stringifyFields (fields : List (String × Json)) :
    ∀ t ∈ JsValue.stringifyFields fields, Quiet t := by
  cases fields with
  | nil => exact List.forall_mem_nil _
  | cons e fields =>
    obtain ⟨k, j⟩ := e
    have hcolon : Quiet [':'] := quiet_singleton (by decide)
    exact List.forall_mem_cons.mpr
      ⟨(quiet_quote k).append (hcolon.append (quiet_stringify j)), quiet_stringifyFields fields⟩
end

/-- A block that begins with the text of an object is that text. -/
theorem braces_stringify (fields : List (String × Json)) (i : Nat) (rest : List Char) :
    braces {} i (JsValue.stringify (.obj fields) ++ rest) =
      some (i, i + (JsValue.stringify (.obj fields)).length) := by
  have hinner := quiet_commaJoin (quiet_stringifyFields fields)
  have hopen : BraceScan.next {} i '\x7b' = { firstOpen := some i, depth := 1 } := rfl
  have hclosing : BraceScan.closing {} '\x7b' = false := rfl
  have hinside : Inside { firstOpen := some i, depth := 1 } := ⟨Int.le_refl 1, rfl, rfl⟩
  have hend (j : Nat) : braces { firstOpen := some i, depth := 1 } j ('\x7d' :: rest) =
      some (i, j + 1) := rfl
  rw [JsValue.stringify, List.cons_append, List.cons_append, braces_cons (by simp [hclosing]), hopen,
    List.append_assoc, hinner _ _ _ hinside, List.singleton_append, hend]
  simp
  omega

/-! ### The way to a block -/

namespace BraceScan

/-- The variables behind a text. -/
def after (s : BraceScan) (i : Nat) : List Char → BraceScan
  | [] => s
  | ch :: cs => (s.next i ch).after (i + 1) cs

end BraceScan

/-- A block begins only with a brace where the variables are as at the beginning. -/
theorem firstOpen_next (hs : s.firstOpen = none)
    (h : ¬(ch = '\x7b' ∧ s.depth = 0 ∧ s.inString = none ∧ s.escape = false)) (i : Nat) :
    (s.next i ch).firstOpen = none := by
  rw [next]
  split
  · exact hs
  next hescape =>
  split
  · exact hs
  split
  · split <;> exact hs
  next hstring =>
  split
  · exact hs
  split
  · next hopen =>
    have hdepth : s.depth ≠ 0 := fun hzero => h ⟨hopen, hzero, hstring, by simpa using hescape⟩
    exact (if_neg hdepth).trans hs
  split <;> exact hs

/-- No block ends where none has begun. -/
theorem braces_cons_of_none (h : (s.next i ch).firstOpen = none) :
    braces s i (ch :: cs) = braces (s.next i ch) (i + 1) cs := by
  rw [braces, h]

theorem braces_append (hs : s.firstOpen = none) (h : '\x7b' ∉ cs) (rest : List Char) :
    braces s i (cs ++ rest) = braces (s.after i cs) (i + cs.length) rest ∧
      (s.after i cs).firstOpen = none := by
  induction cs generalizing s i with
  | nil => exact ⟨rfl, hs⟩
  | cons ch cs ih =>
    rw [List.mem_cons, not_or] at h
    have hnext := firstOpen_next hs (fun hopen => h.1 hopen.1.symm) i
    obtain ⟨hbraces, hnone⟩ := ih hnext h.2 (i := i + 1)
    refine ⟨?_, hnone⟩
    rw [List.cons_append, braces_cons_of_none hnext, hbraces, List.length_cons, Nat.add_assoc,
      Nat.add_comm 1]
    rfl

theorem firstOpen_next_cases (s : BraceScan) (i : Nat) (ch : Char) :
    (s.next i ch).firstOpen = s.firstOpen ∨ (s.next i ch).firstOpen = some i := by
  rw [next]
  split
  · exact .inl rfl
  split
  · exact .inl rfl
  split
  · split <;> exact .inl rfl
  split
  · exact .inl rfl
  split
  · dsimp only
    split
    · exact .inr rfl
    · exact .inl rfl
  split <;> exact .inl rfl

/-- A block begins where the scan is or later, unless it has begun. -/
theorem le_of_braces {start stop : Nat} (h : braces s i cs = some (start, stop)) :
    (s.firstOpen = some start ∨ i ≤ start) ∧ stop ≤ i + cs.length := by
  induction cs generalizing s i with
  | nil => cases h
  | cons ch cs ih =>
    have hopen {start : Nat} (hnext : (s.next i ch).firstOpen = some start ∨ i + 1 ≤ start) :
        s.firstOpen = some start ∨ i ≤ start := by
      obtain hnext | hle := hnext
      · obtain hsame | hhere := firstOpen_next_cases s i ch
        · exact .inl (hsame ▸ hnext)
        · exact .inr (Option.some.inj (hhere.symm.trans hnext)).le
      · exact .inr (Nat.le_of_succ_le hle)
    rw [List.length_cons]
    rw [braces] at h
    split at h
    · next first hfirst =>
      split at h
      · cases h
        exact ⟨hopen (.inl hfirst), by omega⟩
      · obtain ⟨hstart, hstop⟩ := ih h
        exact ⟨hopen hstart, by omega⟩
    · obtain ⟨hstart, hstop⟩ := ih h
      exact ⟨hopen hstart, by omega⟩

end KirkForge.AgentCore

/-! ## Answers -/

namespace KirkForge.AgentCore

variable {candidate part text tail : List Char} {schema : Schema}

/-! ### What is parsed -/

/-- The value that `tryParse` passes to the schema. -/
def readable (candidate : List Char) : Option Json :=
  (Json.read (String.ofList candidate)).or ((findBalancedBraceBlock candidate).bind fun inner =>
    if inner ≠ candidate then Json.read (String.ofList inner) else none)

/-- The value in the first fenced block. -/
def fencedValue (text : List Char) : Option Json :=
  (codeBlock text).bind fun block => readable (Text.trimEnd (Text.trimStart block))

/-- The scan for braces goes on behind the text as it began. -/
def Settled (text : List Char) : Prop := BraceScan.after {} 0 text = {}

instance (text : List Char) : Decidable (Settled text) :=
  inferInstanceAs (Decidable (BraceScan.after {} 0 text = {}))

theorem tryParse_eq (candidate : List Char) (schema : Schema) :
    tryParse candidate schema = (readable candidate).bind schema := by
  rw [tryParse, readable]
  cases Json.read (String.ofList candidate) with
  | some parsed => rfl
  | none =>
    cases findBalancedBraceBlock candidate with
    | none => rfl
    | some inner =>
      dsimp only [Option.none_or, Option.bind_some]
      split <;> rfl

theorem findBalancedBraceBlock_isInfix {inner : List Char}
    (h : findBalancedBraceBlock candidate = some inner) : inner <:+: candidate := by
  obtain ⟨⟨start, stop⟩, -, rfl⟩ := Option.map_eq_some_iff.mp h
  exact (List.drop_suffix _ _).isInfix.trans (List.take_prefix _ _).isInfix

/-- What is parsed is a part of the candidate. -/
theorem exists_part_of_readable {j : Json} (h : readable candidate = some j) :
    ∃ part, part <:+: candidate ∧ Json.read (String.ofList part) = some j := by
  obtain h | ⟨-, h⟩ := Option.or_eq_some_iff.mp h
  · exact ⟨candidate, List.infix_rfl, h⟩
  · obtain ⟨inner, hinner, h⟩ := Option.bind_eq_some_iff.mp h
    split at h
    · exact ⟨inner, findBalancedBraceBlock_isInfix hinner, h⟩
    · cases h

/-- Prose without quotation marks, apostrophes, backslashes and braces is settled. -/
theorem settled_of_plain (h : ∀ ch ∈ text, ch ∉ ['"', '\x27', '\\', '\x7b', '\x7d']) :
    Settled text := by
  have hafter (i : Nat) : BraceScan.after {} i text = {} := by
    induction text generalizing i with
    | nil => rfl
    | cons ch text ih =>
      obtain ⟨hch, htext⟩ := List.forall_mem_cons.mp h
      simp only [List.mem_cons, List.not_mem_nil, or_false, not_or] at hch
      obtain ⟨hquote, happ, hslash, hopen, hclose⟩ := hch
      have hnext : BraceScan.next {} i ch = {} := by
        simp [BraceScan.next, hquote, happ, hslash, hopen, hclose]
      rw [BraceScan.after, hnext]
      exact ih htext (i + 1)
  exact hafter 0

/-! ### Fences -/

theorem fence_ne_nil : fence ≠ [] := List.cons_ne_nil _ _

/-- Up to a character that is kept, what follows makes no difference. -/
theorem dropWhile_append_of_mem {p : Char → Bool} {a : Char} {cs : List Char} (ha : p a = false)
    (h : a ∈ cs) (back : List Char) :
    (cs ++ back).dropWhile p = cs.dropWhile p ++ back ∧ a ∈ cs.dropWhile p := by
  induction cs with
  | nil => cases h
  | cons c cs ih =>
    rw [List.cons_append, List.dropWhile_cons, List.dropWhile_cons]
    split
    · next hc =>
      have hne : a ≠ c := by
        rintro rfl
        rw [ha] at hc
        cases hc
      exact ih (List.mem_of_ne_of_mem hne h)
    · exact ⟨rfl, h⟩

theorem skips_skipLabel : Fenced.Skips fence skipLabel where
  drops opened := by
    refine ⟨opened.takeWhile Pattern.isWordChar ++
      (opened.dropWhile Pattern.isWordChar).takeWhile Text.isWhitespace, ?_, ?_⟩
    · rw [skipLabel, Text.trimStart, List.append_assoc, List.takeWhile_append_dropWhile,
        List.takeWhile_append_dropWhile]
    · have hfence : ∀ c ∈ fence, Pattern.isWordChar c = false ∧ Text.isWhitespace c = false :=
        Text.forall_mem_of_all (by decide)
      refine List.forall_mem_append.mpr ⟨fun c hc hmem => ?_, fun c hc hmem => ?_⟩
      · exact absurd (List.mem_takeWhile_imp hc) (by rw [(hfence c hmem).1]; exact Bool.false_ne_true)
      · exact absurd (List.mem_takeWhile_imp hc) (by rw [(hfence c hmem).2]; exact Bool.false_ne_true)
  append opened back h := by
    have htick : '`' ∈ opened := h.subset List.mem_cons_self
    obtain ⟨hword, hmem⟩ := dropWhile_append_of_mem (p := Pattern.isWordChar) (by decide) htick back
    rw [skipLabel, skipLabel, Text.trimStart, Text.trimStart, hword]
    exact (dropWhile_append_of_mem (by decide) hmem back).1

/-- There is no value in a fenced block where there are no two fences. -/
theorem fencedValue_eq_none (h : ¬Fenced.Twice fence text) : fencedValue text = none := by
  rw [fencedValue, codeBlock, (Fenced.block_eq_none_iff fence_ne_nil skips_skipLabel).mpr h]
  rfl

theorem codeBlock_isInfix {a : Char} {block : List Char} (ha : a ∉ fence)
    (h : codeBlock (a :: tail) = some block) : block <:+: tail := by
  obtain ⟨before, skipped, behind, hsplit⟩ := Fenced.exists_append_of_block skips_skipLabel h
  cases before with
  | nil =>
    obtain ⟨rfl, -⟩ := List.cons.inj hsplit
    exact absurd List.mem_cons_self ha
  | cons b before =>
    obtain ⟨-, rfl⟩ := List.cons.inj hsplit
    exact ⟨before ++ (fence ++ skipped), behind, by simp⟩

/-! ### The object and what is around it -/

section object

variable {fields : List (String × Json)} {before after : List Char}

/-- What is left of the text of an object without its first brace. -/
def inner (fields : List (String × Json)) : List Char :=
  Delimited.commaJoin (JsValue.stringifyFields fields) ++ ['\x7d']

theorem stringify_eq (fields : List (String × Json)) :
    JsValue.stringify (.obj fields) = '\x7b' :: inner fields := rfl

/-- No part of the text of an object is read as the object. -/
theorem readable_ne (h : candidate <:+: inner fields) : readable candidate ≠ some (.obj fields) := by
  intro hread
  obtain ⟨part, hpart, hread⟩ := exists_part_of_readable hread
  refine Json.read_ne_of_mass_lt ?_ hread
  have hle := Json.mass_le_of_isInfix (hpart.trans h)
  have hbrace : Json.mass ['\x7b'] = 1 := by decide
  rw [stringify_eq, Json.mass_cons, hbrace]
  omega

theorem trim_isInfix (block : List Char) : Text.trimEnd (Text.trimStart block) <:+: block :=
  (Text.trimEnd_isPrefix _).isInfix.trans (Text.trimStart_suffix block).isInfix

theorem fencedValue_ne (fields : List (String × Json)) :
    fencedValue (JsValue.stringify (.obj fields)) ≠ some (.obj fields) := by
  intro h
  obtain ⟨block, hblock, hread⟩ := Option.bind_eq_some_iff.mp h
  exact readable_ne ((trim_isInfix block).trans (codeBlock_isInfix (by decide) hblock)) hread

theorem codeBlock_around (fields : List (String × Json)) (hbefore : ¬fence <:+: before)
    (hafter : ¬fence <:+: after) :
    codeBlock (before ++ (JsValue.stringify (.obj fields) ++ after)) =
      codeBlock (JsValue.stringify (.obj fields)) := by
  have hbraces : '\x7b' ∉ fence ∧ '\x7d' ∉ fence := by decide
  rw [JsValue.stringify, List.append_assoc, List.singleton_append]
  exact Fenced.block_around fence_ne_nil skips_skipLabel hbraces.1 hbraces.2 hbefore hafter

theorem findBalancedBraceBlock_of_settled (hbrace : '\x7b' ∉ before) (h : Settled before) :
    findBalancedBraceBlock (before ++ (JsValue.stringify (.obj fields) ++ after)) =
      some (JsValue.stringify (.obj fields)) := by
  have hbraces := (braces_append (s := {}) (i := 0) rfl hbrace
    (JsValue.stringify (.obj fields) ++ after)).1
  rw [h, braces_stringify, Nat.zero_add] at hbraces
  rw [findBalancedBraceBlock, hbraces, Option.map_some, ← List.append_assoc,
    ← List.length_append]
  dsimp only
  rw [List.take_left, List.drop_left]

/-- Behind a text that does not leave the scan as it began, no block begins with the object. -/
theorem block_isInfix_inner (hbrace : '\x7b' ∉ before) (h : ¬Settled before)
    {block : List Char}
    (hblock : findBalancedBraceBlock (before ++ JsValue.stringify (.obj fields)) = some block) :
    block <:+: inner fields := by
  obtain ⟨⟨start, stop⟩, hbraces, rfl⟩ := Option.map_eq_some_iff.mp hblock
  obtain ⟨hbefore, hnone⟩ := braces_append (s := {}) (i := 0) rfl hbrace
    (JsValue.stringify (.obj fields))
  have hnext : ((BraceScan.after {} 0 before).next (0 + before.length) '\x7b').firstOpen = none := by
    refine firstOpen_next hnone ?_ _
    rintro ⟨-, hdepth, hstring, hescape⟩
    refine h ?_
    rw [Settled]
    generalize BraceScan.after {} 0 before = s at hnone hdepth hstring hescape
    obtain ⟨_, _, _, _⟩ := s
    cases hnone
    cases hdepth
    cases hstring
    cases hescape
    rfl
  rw [hbefore, stringify_eq, braces_cons_of_none hnext] at hbraces
  obtain ⟨hstart, -⟩ := le_of_braces hbraces
  rw [hnext, or_iff_right (by simp)] at hstart
  have hinner : (before ++ '\x7b' :: inner fields).drop (before.length + 1) = inner fields := by
    rw [← List.drop_drop, List.drop_left]
    rfl
  dsimp only
  rw [stringify_eq, List.drop_take]
  refine (List.take_prefix _ _).isInfix.trans ?_
  obtain ⟨k, rfl⟩ := Nat.exists_eq_add_of_le hstart
  rw [Nat.zero_add, ← List.drop_drop, hinner]
  exact (List.drop_suffix _ _).isInfix

variable {record : Schema}

theorem extractSchemaContract_eq (text : List Char) (schema : Option Schema) :
    extractSchemaContract record text schema =
      (((fencedValue text).bind (schema.getD record)).filter Json.truthy).or
        ((findBalancedBraceBlock text).bind fun brace =>
          ((readable brace).bind (schema.getD record)).filter Json.truthy) := by
  rw [extractSchemaContract, fencedValue]
  simp only [tryParse_eq]
  cases codeBlock text <;> rfl

theorem readable_stringify (hv : (Json.obj fields).All Json.IsFinite Json.Ordered) :
    readable (JsValue.stringify (.obj fields)) = some (.obj fields) := by
  rw [readable, Json.read_stringify hv, Option.some_or]

/-- Behind a settled prefix an object without fenced JSON is found. -/
theorem extractSchemaContract_of_settled (hv : (Json.obj fields).All Json.IsFinite Json.Ordered)
    (hbrace : '\x7b' ∉ before) (hbefore : ¬fence <:+: before) (hafter : ¬fence <:+: after)
    (hsettled : Settled before) (hfenced : fencedValue (JsValue.stringify (.obj fields)) = none)
    {schema : Option Schema} (hschema : schema.getD record (.obj fields) = some (.obj fields)) :
    extractSchemaContract record (before ++ (JsValue.stringify (.obj fields) ++ after)) schema =
      some (.obj fields) := by
  have hvalue : fencedValue (before ++ (JsValue.stringify (.obj fields) ++ after)) = none := by
    rw [fencedValue, codeBlock_around fields hbefore hafter]
    exact hfenced
  rw [extractSchemaContract_eq, hvalue, findBalancedBraceBlock_of_settled hbrace hsettled,
    Option.bind_some, readable_stringify hv, Option.bind_some, hschema]
  rfl

/-- A schema that accepts nothing but the object, or, given other data, everything else as those. -/
def only (j : Json) (other : Option Json) : Schema := fun i => if i = j then some j else other

theorem fencedValue_eq_none_of_found (hbefore : ¬fence <:+: before)
    (h : extractSchemaContract record (before ++ (JsValue.stringify (.obj fields) ++ []))
      (some (only (.obj fields) (some (.bool true)))) = some (.obj fields)) :
    fencedValue (JsValue.stringify (.obj fields)) = none := by
  cases hfenced : fencedValue (JsValue.stringify (.obj fields)) with
  | none => rfl
  | some j =>
    have hne : j ≠ .obj fields := fun heq => fencedValue_ne fields (heq ▸ hfenced)
    have hvalue : fencedValue (before ++ (JsValue.stringify (.obj fields) ++ [])) = some j := by
      rw [fencedValue, codeBlock_around fields hbefore (mt List.infix_nil.mp fence_ne_nil)]
      exact hfenced
    rw [extractSchemaContract_eq, hvalue, Option.bind_some, Option.getD_some, only, if_neg hne] at h
    cases h

theorem settled_of_found (hbrace : '\x7b' ∉ before) (hbefore : ¬fence <:+: before)
    (h : extractSchemaContract record (before ++ (JsValue.stringify (.obj fields) ++ []))
      (some (only (.obj fields) none)) = some (.obj fields)) : Settled before := by
  by_contra hsettled
  have hnothing {candidate : List Char} (hinner : candidate <:+: inner fields) :
      (readable candidate).bind (only (.obj fields) none) = none := by
    cases hread : readable candidate with
    | none => rfl
    | some j =>
      have hne : j ≠ .obj fields := fun heq => readable_ne hinner (heq ▸ hread)
      exact if_neg hne
  rw [List.append_nil, extractSchemaContract_eq, Option.getD_some] at h
  obtain h | ⟨-, h⟩ := Option.or_eq_some_iff.mp h
  · have haround := codeBlock_around fields hbefore (mt List.infix_nil.mp fence_ne_nil)
    rw [List.append_nil] at haround
    obtain ⟨j, hvalue, hj⟩ := Option.bind_eq_some_iff.mp (Option.filter_eq_some_iff.mp h).1
    obtain ⟨block, hblock, hread⟩ := Option.bind_eq_some_iff.mp hvalue
    rw [haround] at hblock
    have hnone := hnothing ((trim_isInfix block).trans (codeBlock_isInfix (by decide) hblock))
    rw [hread, Option.bind_some, hj] at hnone
    cases hnone
  · obtain ⟨block, hblock, h⟩ := Option.bind_eq_some_iff.mp h
    rw [hnothing (block_isInfix_inner hbrace hsettled hblock)] at h
    cases h

/-- An object in an answer is found by every schema that accepts it and with every suffix if and
only if the scan for braces comes to it as it began and its strings have no fenced block with
JSON. -/
theorem extractSchemaContract_iff (hv : (Json.obj fields).All Json.IsFinite Json.Ordered)
    (hbrace : '\x7b' ∉ before) (hbefore : ¬fence <:+: before) :
    (∀ schema : Option Schema, schema.getD record (.obj fields) = some (.obj fields) →
      ∀ after, ¬fence <:+: after →
        extractSchemaContract record (before ++ (JsValue.stringify (.obj fields) ++ after)) schema =
          some (.obj fields)) ↔
      Settled before ∧ fencedValue (JsValue.stringify (.obj fields)) = none := by
  constructor
  · intro h
    have haccepts (other : Option Json) : Option.getD (some (only (.obj fields) other)) record
        (.obj fields) = some (.obj fields) := if_pos rfl
    have hnil : ¬fence <:+: [] := mt List.infix_nil.mp fence_ne_nil
    exact ⟨settled_of_found hbrace hbefore (h _ (haccepts _) [] hnil),
      fencedValue_eq_none_of_found hbefore (h _ (haccepts _) [] hnil)⟩
  · rintro ⟨hsettled, hfenced⟩ schema hschema after hafter
    exact extractSchemaContract_of_settled hv hbrace hbefore hafter hsettled hfenced hschema

end object

theorem found_behind_quoted_word : extractSchemaContract anyRecord
    ("The \"result\" is ".toList ++ (JsValue.stringify (.obj [("a", .str r"}'")]) ++
      ", isn't it?".toList)) none = some (.obj [("a", .str r"}'")]) := by
  have hv : (Json.obj [("a", .str r"}'")]).All Json.IsFinite Json.Ordered :=
    ⟨by decide, trivial, trivial⟩
  have hbrace : '\x7b' ∉ "The \"result\" is ".toList := by decide
  exact (@extractSchemaContract_iff _ _ anyRecord hv hbrace (by decide)).mpr
    ⟨by decide, by decide +kernel⟩ none rfl _ (by decide)

/-- An apostrophe, a backslash or a closing brace in front of the object keeps the scan from finding
it, and JSON in a fenced block inside of its strings is taken for it. -/
theorem object_not_found :
    extractSchemaContract anyRecord ("Here's the result: ".toList ++
        (JsValue.stringify (.obj [("a", .num 1)]) ++ [])) none = none ∧
      extractSchemaContract anyRecord ("Saved to C:\\".toList ++
        (JsValue.stringify (.obj [("a", .num 1)]) ++ [])) none = none ∧
      extractSchemaContract anyRecord (r"Closed with }: ".toList ++
        (JsValue.stringify (.obj [("a", .obj [])]) ++ [])) none = some (.obj []) ∧
      extractSchemaContract anyRecord ("Result: ".toList ++
        (JsValue.stringify (.obj [("a", .str "```{}```")]) ++ [])) none = some (.obj []) := by
  decide +kernel

end KirkForge.AgentCore
