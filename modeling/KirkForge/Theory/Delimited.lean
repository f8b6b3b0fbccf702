import KirkForge.Theory.Lists

/-!
# Delimited texts

When texts that are joined by commas can be told apart again. A reader of a text is outside of
string literals at some level of brackets, inside a literal, or behind a backslash in one. A text is
balanced if it brings the reader back to where it started and has no comma at that level; balanced
texts joined by commas are the pieces between the commas at the lowest level.
-/

namespace KirkForge.Delimited

inductive Mode
  | code (level : Nat) | literal (level : Nat) | escape (level : Nat)
  deriving DecidableEq

def Mode.next : Mode → Char → Mode
  | code n, c =>
    if c = '"' then literal n
    else if c = '[' ∨ c = '{' then code (n + 1)
    else if c = ']' ∨ c = '}' then code (n - 1)
    else code n
  | literal n, c => if c = '"' then code n else if c = '\\' then escape n else literal n
  | escape n, _ => literal n

def Mode.after (m : Mode) (cs : List Char) : Mode := cs.foldl next m

/-- No comma is read outside of literals and brackets. -/
def NoComma : Mode → List Char → Prop
  | _, [] => True
  | m, c :: cs => ¬(m = .code 0 ∧ c = ',') ∧ NoComma (m.next c) cs

/-- The parts of a text between the commas outside of literals and brackets. -/
def pieces : Mode → List Char → List (List Char)
  | _, [] => [[]]
  | m, c :: cs =>
    if m = .code 0 ∧ c = ',' then [] :: pieces (.code 0) cs
    else (pieces (m.next c) cs).modifyHead (c :: ·)

@[simp] theorem after_nil (m : Mode) : m.after [] = m := rfl

@[simp] theorem after_cons (m : Mode) (c : Char) (cs : List Char) :
    m.after (c :: cs) = (m.next c).after cs := rfl

theorem after_append (m : Mode) (cs ds : List Char) :
    m.after (cs ++ ds) = (m.after cs).after ds := List.foldl_append

theorem noComma_append {m : Mode} {cs ds : List Char} :
    NoComma m (cs ++ ds) ↔ NoComma m cs ∧ NoComma (m.after cs) ds := by
  induction cs generalizing m with
  | nil => simp [NoComma]
  | cons c cs ih => simp only [List.cons_append, NoComma, ih, after_cons, and_assoc]

/-- A part without commas stays in one piece with what follows it. -/
theorem pieces_append {m : Mode} {cs : List Char} (h : NoComma m cs) (ds : List Char) :
    pieces m (cs ++ ds) = (pieces (m.after cs) ds).modifyHead (cs ++ ·) := by
  induction cs generalizing m with
  | nil =>
    rw [List.nil_append, after_nil]
    cases pieces m ds <;> rfl
  | cons c cs ih =>
    rw [List.cons_append, pieces, if_neg h.1, ih h.2, after_cons]
    cases pieces ((m.next c).after cs) ds <;> rfl

/-- The text brings a reader outside of literals back to the level it started from, and has commas
only inside literals and brackets. -/
structure Balanced (cs : List Char) : Prop where
  after : ∀ n, Mode.after (.code n) cs = .code n
  noComma : ∀ n, NoComma (.code n) cs

theorem Balanced.nil : Balanced [] := ⟨fun _ => rfl, fun _ => trivial⟩

theorem Balanced.append {cs ds : List Char} (hc : Balanced cs) (hd : Balanced ds) :
    Balanced (cs ++ ds) := by
  refine ⟨fun n => ?_, fun n => ?_⟩
  · rw [after_append, hc.after, hd.after]
  · rw [noComma_append, hc.after]
    exact ⟨hc.noComma n, hd.noComma n⟩

/-- The characters that a reader outside of literals takes notice of. -/
def special : List Char := ['"', '[', ']', '{', '}', ',']

/-- None of the characters is special. -/
def plain (cs : List Char) : Bool := cs.all fun c => c ∉ special

theorem plain_iff {cs : List Char} : plain cs = true ↔ ∀ c ∈ cs, c ∉ special := by simp [plain]

theorem balanced_of_plain {cs : List Char} (h : plain cs = true) : Balanced cs := by
  rw [plain_iff] at h
  induction cs with
  | nil => exact .nil
  | cons c cs ih =>
    obtain ⟨hc, hcs⟩ := List.forall_mem_cons.mp h
    simp only [special, List.mem_cons, List.not_mem_nil, or_false, not_or] at hc
    obtain ⟨h1, h2, h3, h4, h5, h6⟩ := hc
    have hnext (n : Nat) : Mode.next (.code n) c = .code n := by simp [Mode.next, *]
    refine ⟨fun n => ?_, fun n => ⟨fun hn => h6 hn.2, ?_⟩⟩
    · rw [after_cons, hnext, (ih hcs).after]
    · rw [hnext]
      exact (ih hcs).noComma n

/-- A text inside a literal: it stays in the literal. -/
def InLiteral (cs : List Char) : Prop :=
  ∀ n, Mode.after (.literal n) cs = .literal n ∧ NoComma (.literal n) cs

theorem InLiteral.append {cs ds : List Char} (hc : InLiteral cs) (hd : InLiteral ds) :
    InLiteral (cs ++ ds) := by
  intro n
  rw [after_append, noComma_append, (hc n).1]
  exact ⟨(hd n).1, (hc n).2, (hd n).2⟩

theorem inLiteral_flatMap {α : Type*} {l : List α} {f : α → List Char}
    (h : ∀ a ∈ l, InLiteral (f a)) : InLiteral (l.flatMap f) := by
  induction l with
  | nil => exact fun _ => ⟨rfl, trivial⟩
  | cons a l ih =>
    obtain ⟨ha, hl⟩ := List.forall_mem_cons.mp h
    exact ha.append (ih hl)

/-- A character that neither ends a literal nor escapes the next one. -/
theorem inLiteral_singleton {c : Char} (hq : c ≠ '"') (hb : c ≠ '\\') : InLiteral [c] :=
  fun n => ⟨by simp [Mode.next, hq, hb], by simp [NoComma]⟩

/-- A backslash and the character that it escapes. -/
theorem inLiteral_escape (c : Char) : InLiteral ['\\', c] :=
  fun n => ⟨by simp [Mode.next], by simp [NoComma, Mode.next]⟩

theorem InLiteral.balanced {cs : List Char} (h : InLiteral cs) : Balanced ('"' :: cs ++ ['"']) := by
  refine ⟨fun n => ?_, fun n => ?_⟩
  · rw [List.cons_append, after_cons, after_append]
    simp [Mode.next, (h n).1]
  · rw [List.cons_append]
    refine ⟨by simp, ?_⟩
    rw [noComma_append]
    exact ⟨(h n).2, by simp [Mode.next, (h n).1, NoComma]⟩

/-! ### Joining -/

/-- `texts.join(",")` -/
def commaJoin (texts : List (List Char)) : List Char := [','].intercalate texts

theorem commaJoin_cons_cons (t u : List Char) (texts : List (List Char)) :
    commaJoin (t :: u :: texts) = t ++ ',' :: commaJoin (u :: texts) := by
  simp [commaJoin, List.intercalate_cons_cons]

/-- Below an opening bracket the commas of a join are of no account. -/
theorem after_commaJoin {texts : List (List Char)} (h : ∀ t ∈ texts, Balanced t) (n : Nat) :
    Mode.after (.code (n + 1)) (commaJoin texts) = .code (n + 1) ∧
      NoComma (.code (n + 1)) (commaJoin texts) := by
  induction texts with
  | nil => exact ⟨rfl, trivial⟩
  | cons t texts ih =>
    obtain ⟨ht, htexts⟩ := List.forall_mem_cons.mp h
    cases texts with
    | nil => simpa [commaJoin] using And.intro (ht.after (n + 1)) (ht.noComma (n + 1))
    | cons u texts =>
      have hcomma : Mode.next (.code (n + 1)) ',' = .code (n + 1) := by simp [Mode.next]
      obtain ⟨hafter, hno⟩ := ih htexts
      rw [commaJoin_cons_cons, after_append, noComma_append, ht.after, after_cons, NoComma, hcomma]
      exact ⟨hafter, ht.noComma (n + 1), by simp, hno⟩

/-- Balanced texts joined by commas between an opening and a closing bracket. -/
theorem balanced_enclosed {o c : Char} (ho : o = '[' ∨ o = '{') (hc : c = ']' ∨ c = '}')
    {texts : List (List Char)} (h : ∀ t ∈ texts, Balanced t) :
    Balanced (o :: commaJoin texts ++ [c]) := by
  have hopen (n : Nat) : Mode.next (.code n) o = .code (n + 1) := by
    rcases ho with rfl | rfl <;> simp [Mode.next]
  have hclose (n : Nat) : Mode.next (.code (n + 1)) c = .code n := by
    rcases hc with rfl | rfl <;> simp [Mode.next]
  refine ⟨fun n => ?_, fun n => ?_⟩
  · rw [List.cons_append, after_cons, hopen, after_append, (after_commaJoin h n).1, after_cons,
      hclose, after_nil]
  · obtain ⟨hafter, hno⟩ := after_commaJoin h n
    rw [List.cons_append]
    refine ⟨by rcases ho with rfl | rfl <;> simp, ?_⟩
    rw [hopen, noComma_append, hafter]
    exact ⟨hno, by simp, trivial⟩

theorem pieces_commaJoin {texts : List (List Char)} (hne : texts ≠ [])
    (h : ∀ t ∈ texts, Balanced t) : pieces (.code 0) (commaJoin texts) = texts := by
  induction texts with
  | nil => exact absurd rfl hne
  | cons t texts ih =>
    obtain ⟨ht, htexts⟩ := List.forall_mem_cons.mp h
    cases texts with
    | nil =>
      have hone := pieces_append (ht.noComma 0) []
      rw [ht.after, List.append_nil] at hone
      simpa [commaJoin, pieces] using hone
    | cons u texts =>
      rw [commaJoin_cons_cons, pieces_append (ht.noComma 0), ht.after, pieces,
        if_pos ⟨rfl, rfl⟩, ih (List.cons_ne_nil u texts) htexts]
      simp

/-- Balanced texts can be read off from their join, unless there is none. -/
theorem commaJoin_inj {texts texts' : List (List Char)} (hne : texts ≠ []) (hne' : texts' ≠ [])
    (h : ∀ t ∈ texts, Balanced t) (h' : ∀ t ∈ texts', Balanced t)
    (heq : commaJoin texts = commaJoin texts') : texts = texts' := by
  rw [← pieces_commaJoin hne h, heq, pieces_commaJoin hne' h']

end KirkForge.Delimited
