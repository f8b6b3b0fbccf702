import KirkForge.Theory.TextUnits

/-!
# Regular expressions

The regular expressions of ECMAScript over any alphabet, matched by backtracking in the order of the
standard: the left branch first, a greedy repetition as long as it can go on, a lazy one as short as
it can be, and no round of a repetition that reads nothing. A group stands in no repetition.
`replaceAll` is what a replacement with the flag `g` does. The second part is about expressions on
the code units of a text.
-/

namespace KirkForge

inductive Regex (α : Type*)
  | empty
  | set (p : α → Bool)
  | seq (r s : Regex α)
  | alt (r s : Regex α)
  | star (greedy : Bool) (r : Regex α)
  /-- `\b` -/
  | boundary
  | group (n : Nat) (r : Regex α)

namespace Regex

variable {α : Type*}

/-- A position in a text: what is before it, what follows, and the groups that are matched. -/
structure Cursor (α : Type*) where
  prev : Option α
  rest : List α
  groups : List (Nat × List α) := []

/-- The text between two positions. -/
def Cursor.until (c c' : Cursor α) : List α := c.rest.take (c.rest.length - c'.rest.length)

/-- A way to go on. -/
abbrev Cont (α : Type*) := Cursor α → Option (Cursor α)

/-- Rounds of a repetition, of which each reads something. -/
def rounds (greedy : Bool) (round : Cursor α → Cont α → Option (Cursor α)) :
    Nat → Cursor α → Cont α → Option (Cursor α)
  | 0, c, k => k c
  | n + 1, c, k =>
    let more := round c fun c' =>
      if c'.rest.length < c.rest.length then rounds greedy round n c' k else none
    if greedy then more <|> k c else k c <|> more

/-- Match an expression at a position and go on. -/
def run (word : α → Bool) : Regex α → Cursor α → Cont α → Option (Cursor α)
  | empty, c, k => k c
  | set p, c, k =>
    match c.rest with
    | [] => none
    | a :: rest => if p a then k { c with prev := some a, rest := rest } else none
  | seq r s, c, k => run word r c fun c' => run word s c' k
  | alt r s, c, k => run word r c k <|> run word s c k
  | star greedy r, c, k => rounds greedy (run word r) c.rest.length c k
  | boundary, c, k => if c.prev.any word != c.rest.head?.any word then k c else none
  | group n r, c, k => run word r c fun c' => k { c' with groups := (n, c.until c') :: c'.groups }

/-- The end of a match that begins where `rest` does. -/
def exec (word : α → Bool) (r : Regex α) (prev : Option α) (rest : List α) :
    Option (Cursor α) :=
  run word r { prev := prev, rest := rest } some

/-- Whether a match begins anywhere in what follows `prev`. -/
def testFrom (word : α → Bool) (r : Regex α) (prev : Option α) : List α → Bool
  | [] => (exec word r prev []).isSome
  | a :: rest => (exec word r prev (a :: rest)).isSome || testFrom word r (some a) rest

def test (word : α → Bool) (r : Regex α) (text : List α) : Bool := testFrom word r none text

/-- The matches from left to right, each replaced; the first `skip` places belong to the match
before. -/
def replaceFrom (word : α → Bool) (r : Regex α) (f : List α → List (Nat × List α) → List α) :
    (skip : Nat) → (prev : Option α) → List α → List α
  | 0, prev, [] =>
    match exec word r prev [] with
    | none => []
    | some c => f [] c.groups
  | _ + 1, _, [] => []
  | 0, prev, a :: rest =>
    match exec word r prev (a :: rest) with
    | none => a :: replaceFrom word r f 0 (some a) rest
    | some c =>
      let found := (⟨prev, a :: rest, []⟩ : Cursor α).until c
      match found.length with
      | 0 => f found c.groups ++ a :: replaceFrom word r f 0 (some a) rest
      | n + 1 => f found c.groups ++ replaceFrom word r f n (some a) rest
  | skip + 1, _, a :: rest => replaceFrom word r f skip (some a) rest

/-- `text.replace(r, f)` for an expression with the flag `g` -/
def replaceAll (word : α → Bool) (r : Regex α) (f : List α → List (Nat × List α) → List α)
    (text : List α) : List α :=
  replaceFrom word r f 0 none text

/-- Where nothing is found, nothing is replaced. -/
theorem replaceFrom_of_not_test {word : α → Bool} {r : Regex α}
    {f : List α → List (Nat × List α) → List α} {prev : Option α} {text : List α}
    (h : testFrom word r prev text = false) : replaceFrom word r f 0 prev text = text := by
  induction text generalizing prev with
  | nil =>
    have hnone : exec word r prev [] = none :=
      Option.not_isSome_iff_eq_none.mp (Bool.eq_false_iff.mp h)
    rw [replaceFrom, hnone]
  | cons a rest ih =>
    rw [testFrom, Bool.or_eq_false_iff] at h
    have hnone : exec word r prev (a :: rest) = none :=
      Option.not_isSome_iff_eq_none.mp (Bool.eq_false_iff.mp h.1)
    rw [replaceFrom, hnone]
    exact congrArg (a :: ·) (ih h.2)

theorem replaceAll_of_not_test {word : α → Bool} {r : Regex α}
    {f : List α → List (Nat × List α) → List α} {text : List α}
    (h : test word r text = false) : replaceAll word r f text = text :=
  replaceFrom_of_not_test h

/-! ### How expressions are put together -/

/-- `r?` -/
def optional (r : Regex α) : Regex α := alt r empty

/-- `r+` -/
def plus (r : Regex α) : Regex α := seq r (star true r)

/-- `r{n}` -/
def times : Nat → Regex α → Regex α
  | 0, _ => empty
  | n + 1, r => seq r (times n r)

/-- `r{n,}` -/
def atLeast (n : Nat) (r : Regex α) : Regex α := seq (times n r) (star true r)

def concat (rs : List (Regex α)) : Regex α := rs.foldr seq empty

/-- The first of several that matches. -/
def choice : List (Regex α) → Regex α
  | [] => set fun _ => false
  | [r] => r
  | r :: rs => alt r (choice rs)

/-! ### Expressions on code units -/

abbrev Units := Regex Nat

def range (a b : Char) : Nat → Bool := fun u => a.toNat ≤ u && u ≤ b.toNat

def oneOf (s : String) : Nat → Bool := fun u => u ∈ Text.utf16 s

def isDigit : Nat → Bool := range '0' '9'

def isUpper : Nat → Bool := range 'A' 'Z'

def isLower : Nat → Bool := range 'a' 'z'

def isAlphanum (u : Nat) : Bool := isUpper u || isLower u || isDigit u

/-- `\w` -/
def isWord (u : Nat) : Bool := isAlphanum u || oneOf "_" u

/-- `\s` -/
def isSpace (u : Nat) : Bool := Text.isWhitespace (Char.ofNat u)

/-- A character as it is, or in either case. -/
def unit (ignoreCase : Bool) (u : Nat) : Nat → Bool := fun v =>
  v = u || ignoreCase && (isUpper u && v = u + 32 || isLower u && v + 32 = u)

def literal (ignoreCase : Bool) (s : String) : Units :=
  concat ((Text.utf16 s).map fun u => set (unit ignoreCase u))

/-- `r.test(s)` -/
def testText (r : Units) (s : String) : Bool := test isWord r (Text.utf16 s)

/-- `s.replace(r, f)` for an expression with the flag `g`, where `f` does not look at groups -/
def replaceText (r : Units) (f : String → String) (s : String) : String :=
  String.ofList (Json.chars (replaceAll isWord r
    (fun found _ => Text.utf16 (f (String.ofList (Json.chars found)))) (Text.utf16 s)))

theorem replaceText_of_not_test {r : Units} {f : String → String} {s : String}
    (h : testText r s = false) : replaceText r f s = s := by
  rw [replaceText, replaceAll_of_not_test h, Text.chars_utf16, String.ofList_toList]

example : replaceText (seq boundary (seq (plus (set isDigit)) boundary)) (fun s => s ++ "!")
    "12 a3 45😀" = "12! a3 45!😀" := by decide

end Regex

end KirkForge
