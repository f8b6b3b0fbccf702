import KirkForge.Theory.OrderedMap
import Mathlib.Data.List.Infix

/-!
# Substitution in templates

A template has placeholders `{{name}}`. Its variables may be substituted one after the other by
`replaceAll`, which replaces every occurrence in the text as it stands and reads dollar sequences in
the value, or all at once in the template. The two agree if each replacement meets the placeholders
of the template and nothing else and no value in use has a dollar sequence (`foldl_replaceAll`).
-/

namespace KirkForge.Substitution

/-- The text of a replacement: `$$` is a dollar, `$&` what is replaced, and a dollar with a backtick
or an apostrophe what is before or after it. -/
def expand (before matched after : List Char) : List Char → List Char
  | [] => []
  | [c] => [c]
  | c :: d :: cs =>
    if c = '$' ∧ d = '$' then '$' :: expand before matched after cs
    else if c = '$' ∧ d = '&' then matched ++ expand before matched after cs
    else if c = '$' ∧ d = '`' then before ++ expand before matched after cs
    else if c = '$' ∧ d = '\x27' then after ++ expand before matched after cs
    else c :: expand before matched after (d :: cs)

/-- `text.replaceAll(pattern, replacement)` behind the text before, where so many characters still
belong to the last match. -/
def replaceFrom (pattern replacement before : List Char) : Nat → List Char → List Char
  | _, [] => []
  | skip + 1, c :: cs => replaceFrom pattern replacement (before ++ [c]) skip cs
  | 0, c :: cs =>
    if pattern <+: c :: cs then
      expand before pattern ((c :: cs).drop pattern.length) replacement ++
        replaceFrom pattern replacement (before ++ [c]) (pattern.length - 1) cs
    else c :: replaceFrom pattern replacement (before ++ [c]) 0 cs

/-- `text.replaceAll(pattern, replacement)` for a pattern that is not empty. -/
def replaceAll (pattern replacement text : List Char) : List Char :=
  replaceFrom pattern replacement [] 0 text

/-- The value has no dollar sequence. -/
def Inert (value : List Char) : Prop :=
  ∀ d ∈ ['$', '&', '`', '\x27'], ¬['$', d] <:+: value

instance (value : List Char) : Decidable (Inert value) := List.decidableBAll _ _

/-- `{{name}}` -/
def placeholder (name : List Char) : List Char := '{' :: '{' :: (name ++ ['}', '}'])

/-- A part of a template. -/
inductive Piece
  | char (c : Char) | hole (name : List Char)
  deriving DecidableEq

/-- The parts of a template whose placeholders have some of the names, where so many characters
still belong to the last placeholder. -/
def piecesFrom (names : List (List Char)) : Nat → List Char → List Piece
  | _, [] => []
  | skip + 1, _ :: cs => piecesFrom names skip cs
  | 0, c :: cs =>
    match names.find? fun name => placeholder name <+: c :: cs with
    | some name => .hole name :: piecesFrom names (name.length + 3) cs
    | none => .char c :: piecesFrom names 0 cs

def pieces (names : List (List Char)) (template : List Char) : List Piece :=
  piecesFrom names 0 template

abbrev Variables := List (List Char × List Char)

def Piece.fill (vars : Variables) : Piece → List Char
  | char c => [c]
  | hole name => (OrderedMap.lookup name vars).getD (placeholder name)

/-- The template with the placeholders of some variables filled in at once. -/
def fill (vars : Variables) (template : List Piece) : List Char :=
  template.flatMap (Piece.fill vars)

/-- The template with some variables filled in around the placeholders of a name. -/
def fillAround (vars : Variables) (name : List Char) (template : List Piece) : List Piece :=
  template.flatMap fun piece =>
    if piece = .hole name then [piece] else (piece.fill vars).map .char

/-- With the variables before it filled in, each variable has its placeholders where the template
has them and nowhere else, and no value in use has a dollar sequence. -/
def Harmless (vars : Variables) (template : List Piece) : Prop :=
  ∀ i : Fin vars.length, (.hole vars[i].1 ∈ template → Inert vars[i].2) ∧
    pieces [vars[i].1] (fill (vars.take i) template) =
      fillAround (vars.take i) vars[i].1 template

instance (vars : Variables) (template : List Piece) : Decidable (Harmless vars template) :=
  inferInstanceAs (Decidable (∀ _, _))

/-! ### Replacements -/

variable {pattern replacement before matched after text cs ds : List Char} {name value : List Char}
  {template : List Piece} {vars front : Variables}

theorem Inert.expand_eq (h : Inert replacement) : expand before matched after replacement =
    replacement := by
  induction replacement with
  | nil => rfl
  | cons c cs ih =>
    have hrest : Inert cs := fun d hd hin => h d hd (hin.trans (List.suffix_cons c cs).isInfix)
    cases cs with
    | nil => rfl
    | cons d cs =>
      have hfirst (hc : c = '$') : d ∉ ['$', '&', '`', '\x27'] := by
        intro hd
        subst hc
        exact h d hd ((List.prefix_append ['$', d] cs).isInfix)
      rw [expand, ih hrest, if_neg, if_neg, if_neg, if_neg]
      · rintro ⟨hc, rfl⟩
        exact hfirst hc (by decide)
      · rintro ⟨hc, rfl⟩
        exact hfirst hc (by decide)
      · rintro ⟨hc, rfl⟩
        exact hfirst hc (by decide)
      · rintro ⟨hc, rfl⟩
        exact hfirst hc (by decide)

theorem piecesFrom_singleton (name : List Char) (c : Char) (cs : List Char) :
    piecesFrom [name] 0 (c :: cs) =
      if placeholder name <+: c :: cs then .hole name :: piecesFrom [name] (name.length + 3) cs
      else .char c :: piecesFrom [name] 0 cs := by
  rw [piecesFrom, List.find?_cons]
  by_cases hprefix : placeholder name <+: c :: cs
  · rw [decide_eq_true hprefix, if_pos hprefix]
  · rw [decide_eq_false hprefix, if_neg hprefix]
    rfl

/-! ### Templates -/

theorem fill_cons (vars : Variables) (piece : Piece) (template : List Piece) :
    fill vars (piece :: template) = piece.fill vars ++ fill vars template := List.flatMap_cons

theorem fill_hole_of_none (h : OrderedMap.lookup name vars = none) :
    (Piece.hole name).fill vars = placeholder name := by
  rw [Piece.fill, h, Option.getD_none]

/-- A variable that is filled in later makes no difference to the other pieces. -/
theorem fill_concat_of_ne {piece : Piece} (hpiece : piece ≠ .hole name) :
    piece.fill (vars ++ [(name, value)]) = piece.fill vars := by
  cases piece with
  | char c => rfl
  | hole name' =>
    have hne : name ≠ name' := fun heq => hpiece (heq ▸ rfl)
    have hlookup : OrderedMap.lookup name' (vars ++ [(name, value)]) =
        OrderedMap.lookup name' vars := by
      by_cases hin : name' ∈ vars.map Prod.fst
      · induction vars with
        | nil => cases hin
        | cons entry vars ih =>
          obtain ⟨a, b⟩ := entry
          rw [List.cons_append, OrderedMap.lookup, OrderedMap.lookup]
          split
          · rfl
          · next ha => exact ih ((List.mem_cons.mp hin).resolve_left (Ne.symm ha))
      · rw [OrderedMap.lookup_append hin, OrderedMap.lookup, if_neg hne,
          OrderedMap.lookup_eq_none_iff.mpr hin]
        rfl
    rw [Piece.fill, Piece.fill, hlookup]

theorem fill_append (vars : Variables) (front back : List Piece) :
    fill vars (front ++ back) = fill vars front ++ fill vars back := List.flatMap_append

theorem fill_map_char (vars : Variables) (cs : List Char) : fill vars (cs.map .char) = cs := by
  induction cs with
  | nil => rfl
  | cons c cs ih =>
    rw [List.map_cons, fill_cons, ih]
    rfl

theorem fill_hole_concat (h : OrderedMap.lookup name vars = none) :
    (Piece.hole name).fill (vars ++ [(name, value)]) = value := by
  rw [Piece.fill, OrderedMap.lookup_append (OrderedMap.lookup_eq_none_iff.mp h),
    OrderedMap.lookup, if_pos rfl, Option.getD_some]

theorem fill_hole_singleton (name value : List Char) :
    (Piece.hole name).fill [(name, value)] = value := by
  rw [Piece.fill, OrderedMap.lookup, if_pos rfl, Option.getD_some]

theorem fillAround_cons (vars : Variables) (name : List Char) (piece : Piece)
    (template : List Piece) : fillAround vars name (piece :: template) =
      (if piece = .hole name then [piece] else (piece.fill vars).map .char) ++
        fillAround vars name template := List.flatMap_cons

/-- To fill in a variable where the others are filled in around it is to fill in all of them. -/
theorem fill_fillAround (h : OrderedMap.lookup name vars = none) (template : List Piece) :
    fill [(name, value)] (fillAround vars name template) =
      fill (vars ++ [(name, value)]) template := by
  induction template with
  | nil => rfl
  | cons piece template ih =>
    rw [fillAround_cons, fill_append, ih, fill_cons]
    by_cases hpiece : piece = .hole name
    · rw [if_pos hpiece, hpiece, fill_hole_concat h, fill_cons, fill_hole_singleton, fill,
        List.flatMap_nil, List.append_nil]
    · rw [if_neg hpiece, fill_map_char, fill_concat_of_ne hpiece]

theorem hole_mem_fillAround (h : .hole name ∈ fillAround vars name template) :
    .hole name ∈ template := by
  obtain ⟨piece, hpiece, hmem⟩ := List.mem_flatMap.mp h
  split at hmem
  · next heq => exact heq ▸ hpiece
  · obtain ⟨c, -, hc⟩ := List.mem_map.mp hmem
    cases hc

/-- The replacements of one variable fill in its placeholders in the text. -/
theorem replaceFrom_eq_fill (cs before : List Char) (n : Nat)
    (hvalue : .hole name ∈ piecesFrom [name] n cs → Inert value) :
    replaceFrom (placeholder name) value before n cs =
      fill [(name, value)] (piecesFrom [name] n cs) := by
  induction cs generalizing n before with
  | nil => cases n <;> rfl
  | cons c cs ih =>
    cases n with
    | succ n =>
      rw [piecesFrom] at hvalue ⊢
      exact ih _ n hvalue
    | zero =>
      rw [piecesFrom_singleton] at hvalue ⊢
      rw [replaceFrom]
      have hlength : (placeholder name).length - 1 = name.length + 3 := by simp [placeholder]
      by_cases hprefix : placeholder name <+: c :: cs
      · rw [if_pos hprefix] at hvalue
        rw [if_pos hprefix, if_pos hprefix, (hvalue List.mem_cons_self).expand_eq, hlength,
          ih _ _ fun hin => hvalue (List.mem_cons_of_mem _ hin), fill_cons, fill_hole_singleton]
      · rw [if_neg hprefix] at hvalue
        rw [if_neg hprefix, if_neg hprefix, ih _ _ fun hin => hvalue (List.mem_cons_of_mem _ hin)]
        rfl

theorem fill_nil_piecesFrom (names : List (List Char)) (n : Nat) (cs : List Char) :
    fill [] (piecesFrom names n cs) = cs.drop n := by
  induction cs generalizing n with
  | nil =>
    rw [List.drop_nil]
    cases n <;> rfl
  | cons c cs ih =>
    cases n with
    | succ n => rw [piecesFrom, ih, List.drop_succ_cons]
    | zero =>
      rw [piecesFrom]
      split
      · next name hname =>
        have hprefix := List.find?_some hname
        obtain ⟨rest, hrest⟩ := of_decide_eq_true hprefix
        rw [fill_cons, ih, fill_hole_of_none rfl, List.drop_zero, ← hrest]
        have htail : cs = '{' :: (name ++ ['}', '}']) ++ rest := (List.cons.inj hrest).2.symm
        rw [htail, List.drop_left' (by simp)]
      · rw [fill_cons, ih]
        rfl

/-- A template is its parts. -/
theorem fill_nil_pieces (names : List (List Char)) (cs : List Char) :
    fill [] (pieces names cs) = cs := fill_nil_piecesFrom names 0 cs

theorem foldl_replaceAll_fill {done todo : Variables}
    (hnodup : ((done ++ todo).map Prod.fst).Nodup) (h : Harmless (done ++ todo) template) :
    todo.foldl (fun text entry => replaceAll (placeholder entry.1) entry.2 text)
        (fill done template) =
      fill (done ++ todo) template := by
  induction todo generalizing done with
  | nil => rw [List.append_nil, List.foldl_nil]
  | cons entry todo ih =>
    obtain ⟨name, value⟩ := entry
    have hnone : OrderedMap.lookup name done = none := by
      rw [OrderedMap.lookup_eq_none_iff]
      intro hin
      rw [List.map_append, List.map_cons] at hnodup
      exact (List.nodup_append.mp hnodup).2.2 name hin name List.mem_cons_self rfl
    obtain ⟨hvalue, hplaces⟩ := h ⟨done.length, by simp⟩
    simp only [Fin.getElem_fin, List.getElem_append_right (Nat.le_refl _), Nat.sub_self,
      List.getElem_cons_zero, List.take_left'] at hvalue hplaces
    have happend : done ++ (name, value) :: todo = done ++ [(name, value)] ++ todo := by simp
    rw [happend] at hnodup h ⊢
    have hinert (hin : .hole name ∈ pieces [name] (fill done template)) : Inert value :=
      hvalue (hole_mem_fillAround (hplaces ▸ hin))
    have hreplace : replaceAll (placeholder name) value (fill done template) =
        fill (done ++ [(name, value)]) template := by
      rw [replaceAll, replaceFrom_eq_fill _ _ _ hinert, ← fill_fillAround hnone, ← hplaces, pieces]
    rw [List.foldl_cons, hreplace, ih hnodup h]

/-- Harmless replacements one after the other fill in the variables all at once. -/
theorem foldl_replaceAll {names : List (List Char)} {text : List Char}
    (hnodup : (vars.map Prod.fst).Nodup) (h : Harmless vars (pieces names text)) :
    vars.foldl (fun text entry => replaceAll (placeholder entry.1) entry.2 text) text =
      fill vars (pieces names text) := by
  have hall : vars.foldl _ (fill [] (pieces names text)) = fill ([] ++ vars) (pieces names text) :=
    foldl_replaceAll_fill hnodup h
  rwa [fill_nil_pieces, List.nil_append] at hall

/-- A placeholder that overlaps itself counts where it is replaced. -/
example : Harmless [(['}', '}', '{', '{'], ['v'])]
    (pieces [['}', '}', '{', '{']] (placeholder [] ++ placeholder [] ++ placeholder [])) := by
  decide +kernel

end KirkForge.Substitution
