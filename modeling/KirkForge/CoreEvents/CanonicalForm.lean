import KirkForge.CoreEvents.CanonicalJson
import KirkForge.Theory.DelimitedEnd
import KirkForge.Theory.JsonText

/-!
# What the canonical JSON tells

The form of a value is what its canonical text says of it: a word for what is written without
quotes, the members in the order of their keys, a mark for what is too deep. Two values have the
same canonical text exactly if they have the same form (`canonicalJson_eq_iff`).
-/

namespace KirkForge

open Delimited JsValue

inductive CanonicalForm
  | word (cs : List Char)
  | string (s : String)
  | array (elements : List CanonicalForm)
  | object (members : List (String × CanonicalForm))

namespace CanonicalForm

mutual
def render : CanonicalForm → List Char
  | word cs => cs
  | string s => quote s
  | array elements => arrayText (renderAll elements)
  | object members => '{' :: commaJoin (renderMembers members) ++ ['}']

def renderAll : List CanonicalForm → List (List Char)
  | [] => []
  | f :: fs => render f :: renderAll fs

def renderMembers : List (String × CanonicalForm) → List (List Char)
  | [] => []
  | (k, f) :: rest => memberText (k, render f) :: renderMembers rest
end

theorem renderAll_eq (fs : List CanonicalForm) : renderAll fs = fs.map render := by
  induction fs with
  | nil => rfl
  | cons f fs ih => rw [renderAll, ih, List.map_cons]

theorem renderMembers_eq (members : List (String × CanonicalForm)) :
    renderMembers members = members.map fun m => memberText (m.1, render m.2) := by
  induction members with
  | nil => rfl
  | cons m members ih => rw [renderMembers, ih, List.map_cons]

/-- What does not end the text around it and begins no literal. -/
def isWord (cs : List Char) : Bool := plain cs && cs.all (· ≠ '\\')

theorem isWord_iff {cs : List Char} : isWord cs = true ↔ plain cs = true ∧ '\\' ∉ cs := by
  rw [isWord, Bool.and_eq_true, List.all_eq_true]
  refine and_congr_right fun _ => ⟨fun h hmem => ?_, fun h c hc => ?_⟩
  · exact absurd (h _ hmem) (by decide)
  · exact decide_eq_true fun heq => h (heq ▸ hc)

/-- The words are words, and a blank does not stand alone in an array. -/
inductive WellFormed : CanonicalForm → Prop
  | word {cs : List Char} (h : isWord cs = true) : WellFormed (word cs)
  | string {s : String} : WellFormed (string s)
  | array {elements : List CanonicalForm} (hblank : elements ≠ [.word []])
      (h : ∀ f ∈ elements, WellFormed f) : WellFormed (array elements)
  | object {members : List (String × CanonicalForm)} (h : ∀ m ∈ members, WellFormed m.2) :
      WellFormed (object members)

/-! ### The texts of forms -/

theorem escapesInside_quoteChar (c : Char) (n : Nat) :
    EscapesInside (.literal n) (quoteChar c) := by
  have hescape (d : Char) (cs : List Char) (h : '"' ∉ cs) :
      EscapesInside (.literal n) ('\\' :: d :: cs) := by
    refine ⟨nofun, nofun, ?_⟩
    exact escapesInside_of_no_quote rfl h
  have hdigit : ∀ d < 16, '"' ≠ Nat.digitChar d := by decide
  unfold quoteChar
  split
  · exact hescape c [] List.not_mem_nil
  next hspecial =>
  repeat' split
  all_goals first
    | exact hescape _ [] List.not_mem_nil
    | skip
  · have h1 := hdigit (c.toNat / 16) (by omega)
    have h2 := hdigit (c.toNat % 16) (by omega)
    apply hescape
    simp [h1, h2]
  · apply escapesInside_of_no_quote rfl
    rw [List.mem_singleton]
    exact fun h => hspecial (.inl h.symm)

theorem tidy_quote (s : String) : Tidy (quote s) :=
  tidy_quoted (inLiteral_flatMap fun c _ => inLiteral_quoteChar c) <|
    escapesInside_flatMap (fun c _ => inLiteral_quoteChar c) fun c _ => escapesInside_quoteChar c

theorem memberText_tidy {entry : String × List Char} (h : Tidy entry.2) :
    Tidy (memberText entry) :=
  (tidy_quote entry.1).append (balanced_quote entry.1) fun n => ⟨by simp, h n⟩

theorem WellFormed.render {f : CanonicalForm} (hf : f.WellFormed) :
    Balanced f.render ∧ Tidy f.render := by
  induction hf with
  | word h =>
    obtain ⟨hplain, hslash⟩ := isWord_iff.mp h
    exact ⟨balanced_of_plain hplain, tidy_of_notMem hslash⟩
  | @string s => exact ⟨balanced_quote s, tidy_quote s⟩
  | @array elements _ _ ih =>
    have hall : ∀ t ∈ renderAll elements, Balanced t ∧ Tidy t := by
      rw [renderAll_eq]
      exact List.forall_mem_map.mpr ih
    have hbalanced := fun t ht => (hall t ht).1
    exact ⟨balanced_enclosed (.inl rfl) (.inl rfl) hbalanced,
      tidy_enclosed (.inl rfl) (.inl rfl) hbalanced fun t ht => (hall t ht).2⟩
  | @object members _ ih =>
    have hall : ∀ t ∈ renderMembers members, Balanced t ∧ Tidy t := by
      rw [renderMembers_eq]
      exact List.forall_mem_map.mpr fun m hm =>
        ⟨memberText_balanced (ih m hm).1, memberText_tidy (ih m hm).2⟩
    have hbalanced := fun t ht => (hall t ht).1
    exact ⟨balanced_enclosed (.inr rfl) (.inr rfl) hbalanced,
      tidy_enclosed (.inr rfl) (.inr rfl) hbalanced fun t ht => (hall t ht).2⟩

/-! ### Texts determine forms -/

/-- The character that a form other than a word begins with. -/
def opener : CanonicalForm → Option Char
  | word _ => none
  | string _ => some '"'
  | array _ => some '['
  | object _ => some '{'

theorem WellFormed.opener_eq {f : CanonicalForm} (hf : f.WellFormed) :
    f.opener = f.render.head?.filter (· ∈ special) := by
  cases hf with
  | @word cs h =>
    cases cs with
    | nil => rfl
    | cons c cs =>
      have hc := plain_iff.mp (isWord_iff.mp h).1 c List.mem_cons_self
      simp [opener, CanonicalForm.render, Option.filter, hc]
  | string | array | object => rfl

theorem eq_blank_of_render {f : CanonicalForm} (h : f.render = []) : f = word [] := by
  cases f with
  | word cs => exact congrArg word h
  | string | array | object => exact nomatch h

/-- Only without elements an array has nothing between its brackets. -/
theorem eq_nil_of_commaJoin {fs : List CanonicalForm} (hblank : fs ≠ [.word []])
    (h : commaJoin (renderAll fs) = []) : fs = [] := by
  match fs with
  | [] => rfl
  | [f] =>
    have hf : f.render = [] := by simpa [renderAll, commaJoin] using h
    exact absurd (congrArg List.singleton (eq_blank_of_render hf)) hblank
  | f :: g :: fs =>
    rw [renderAll, renderAll, commaJoin_cons_cons] at h
    simp at h

theorem renderAll_inj_of_array {fs gs : List CanonicalForm} (hfs : ∀ f ∈ fs, f.WellFormed)
    (hgs : ∀ g ∈ gs, g.WellFormed) (hfs' : fs ≠ [.word []]) (hgs' : gs ≠ [.word []])
    (h : (array fs).render = (array gs).render) : fs.map render = gs.map render := by
  have hjoin : commaJoin (renderAll fs) = commaJoin (renderAll gs) := by
    simpa [render, arrayText] using h
  by_cases hnil : fs = []
  · subst hnil
    rw [eq_nil_of_commaJoin hgs' hjoin.symm]
  by_cases hnil' : gs = []
  · subst hnil'
    exact absurd (eq_nil_of_commaJoin hfs' hjoin) hnil
  rw [renderAll_eq, renderAll_eq] at hjoin
  refine commaJoin_inj (by simpa using hnil) (by simpa using hnil') ?_ ?_ hjoin
  · exact List.forall_mem_map.mpr fun f hf => (hfs f hf).render.1
  · exact List.forall_mem_map.mpr fun g hg => (hgs g hg).render.1

theorem renderMembers_inj {ms ns : List (String × CanonicalForm)}
    (hms : ∀ m ∈ ms, m.2.WellFormed) (hns : ∀ n ∈ ns, n.2.WellFormed)
    (h : (object ms).render = (object ns).render) : renderMembers ms = renderMembers ns := by
  have hjoin : commaJoin (renderMembers ms) = commaJoin (renderMembers ns) := by
    simpa [render] using h
  have hbalanced {ms : List (String × CanonicalForm)} (hms : ∀ m ∈ ms, m.2.WellFormed) :
      ∀ t ∈ renderMembers ms, Balanced t := by
    rw [renderMembers_eq]
    exact List.forall_mem_map.mpr fun m hm => memberText_balanced (hms m hm).render.1
  cases ms with
  | nil =>
    cases ns with
    | nil => rfl
    | cons n ns => exact absurd hjoin.symm (commaJoin_ne_nil (memberText_ne_nil _) _)
  | cons m ms =>
    cases ns with
    | nil => exact absurd hjoin (commaJoin_ne_nil (memberText_ne_nil _) _)
    | cons n ns => exact commaJoin_inj nofun nofun (hbalanced hms) (hbalanced hns) hjoin

theorem memberText_inj {k l : String} {t u : List Char}
    (h : memberText (k, t) = memberText (l, u)) : k = l ∧ t = u := by
  obtain ⟨hkey, htext⟩ := Json.quote_inj h
  exact ⟨hkey, (List.cons.inj htext).2⟩

/-- A well formed form is determined by its text. -/
theorem WellFormed.eq_of_render {f g : CanonicalForm} (hf : f.WellFormed) (hg : g.WellFormed)
    (h : f.render = g.render) : f = g := by
  have hopener : f.opener = g.opener := by
    rw [hf.opener_eq, hg.opener_eq, h]
  induction hf generalizing g with
  | word =>
    cases hg with
    | word => exact congrArg CanonicalForm.word h
    | _ => exact nomatch hopener
  | @string s =>
    cases hg with
    | @string t =>
      have hquote : quote s ++ [] = quote t ++ [] := congrArg (· ++ []) h
      rw [(Json.quote_inj hquote).1]
    | _ => exact nomatch hopener
  | @array fs hblank hfs ih =>
    cases hg with
    | @array gs hblank' hgs =>
      have hmap := renderAll_inj_of_array hfs hgs hblank hblank' h
      refine congrArg CanonicalForm.array (Lists.map_inj_of_mem ?_ hmap)
      intro f hf g hg hfg
      refine ih f hf (hgs g hg) hfg ?_
      rw [(hfs f hf).opener_eq, (hgs g hg).opener_eq, hfg]
    | _ => exact nomatch hopener
  | @object ms hms ih =>
    cases hg with
    | @object ns hns =>
      have hmap := renderMembers_inj hms hns h
      rw [renderMembers_eq, renderMembers_eq] at hmap
      refine congrArg CanonicalForm.object (Lists.map_inj_of_mem ?_ hmap)
      intro m hm n hn hmn
      obtain ⟨hkey, htext⟩ := memberText_inj hmn
      refine Prod.ext hkey (ih m hm (hns n hn) htext ?_)
      rw [(hms m hm).opener_eq, (hns n hn).opener_eq, htext]
    | _ => exact nomatch hopener

end CanonicalForm

/-! ### The form of a value -/

open CanonicalForm

def maxDepthForm (depth : Nat) (form : Option CanonicalForm) : Option CanonicalForm :=
  if depth > 32 then some (.string "<max-depth>") else form

/-- An array with nothing but a blank in it looks empty. -/
def dropBlank : List CanonicalForm → List CanonicalForm
  | [.word []] => []
  | fs => fs

def sortMembers (members : List (String × CanonicalForm)) : List (String × CanonicalForm) :=
  members.insertionSort fun a b => Text.le a.1 b.1 = true

mutual
/-- The form of a value, or `none` for a function. `undefined` is `null`, as is a number that is not
finite, and an object with a method `toJSON` is one like any other. -/
def formOf : JsValue → Nat → Option CanonicalForm
  | .undefined, depth | .null, depth => maxDepthForm depth (some (.word "null".toList))
  | .bool b, depth => maxDepthForm depth (some (.word (if b then "true" else "false").toList))
  | .number x, depth => maxDepthForm depth (some (.word (numberText x)))
  | .string s, depth => maxDepthForm depth (some (.string s))
  | .function, depth => maxDepthForm depth none
  | .array elements, depth =>
    maxDepthForm depth (some (.array (dropBlank (elementForms elements (depth + 1)))))
  | .object members, depth | .custom members _, depth =>
    maxDepthForm depth (some (.object (sortMembers (memberForms members (depth + 1)))))

/-- A hole and a function are blank. -/
def elementForms : JsElements → Nat → List CanonicalForm
  | .nil, _ => []
  | .hole rest, depth => .word [] :: elementForms rest depth
  | .cons v rest, depth => (formOf v depth).getD (.word []) :: elementForms rest depth

def memberForms : JsMembers → Nat → List (String × CanonicalForm)
  | .nil, _ => []
  | .cons k v rest, depth =>
    (k, (formOf v depth).getD (.word "undefined".toList)) :: memberForms rest depth
end

theorem dropBlank_ne (fs : List CanonicalForm) : dropBlank fs ≠ [.word []] := by
  unfold dropBlank
  split
  · exact nofun
  · next h => exact h

theorem mem_of_mem_dropBlank {fs : List CanonicalForm} {f : CanonicalForm} (h : f ∈ dropBlank fs) :
    f ∈ fs := by
  unfold dropBlank at h
  split at h
  · exact absurd h List.not_mem_nil
  · exact h

theorem arrayText_dropBlank (fs : List CanonicalForm) :
    arrayText (renderAll (dropBlank fs)) = arrayText (renderAll fs) := by
  unfold dropBlank
  split <;> rfl

theorem objectText_forms (members : List (String × CanonicalForm)) :
    objectText (members.map fun m => (m.1, m.2.render)) =
      (object (sortMembers members)).render := by
  have hsort : sortKeys (members.map fun m => (m.1, m.2.render)) =
      (sortMembers members).map fun m => (m.1, m.2.render) :=
    (List.map_insertionSort _ keyLe _ _ fun _ _ _ _ => Iff.rfl).symm
  rw [objectText, hsort, CanonicalForm.render, renderMembers_eq, List.map_map]
  rfl

theorem maxDepthForm_render (depth : Nat) (form : Option CanonicalForm) :
    (maxDepthForm depth form).map render = limited depth (form.map render) := by
  unfold maxDepthForm limited
  split <;> rfl

theorem getD_render (form : Option CanonicalForm) (cs : List Char) :
    (form.getD (.word cs)).render = (form.map render).getD cs := by
  cases form <;> rfl

mutual
theorem formOf_render (v : JsValue) (depth : Nat) :
    (formOf v depth).map render = canonicalJson v depth := by
  cases v with
  | array elements =>
    have helements := elementForms_render elements (depth + 1)
    rw [formOf, maxDepthForm_render, Option.map_some, CanonicalForm.render, arrayText_dropBlank,
      renderAll_eq, helements]
    rfl
  | object members | custom members json =>
    have hmembers := memberForms_render members (depth + 1)
    rw [formOf, maxDepthForm_render, Option.map_some, ← objectText_forms, hmembers]
    rfl
  | _ => exact maxDepthForm_render depth _

theorem elementForms_render (elements : JsElements) (depth : Nat) :
    (elementForms elements depth).map render = elementTexts elements depth := by
  cases elements with
  | nil => rfl
  | hole rest => exact congrArg ([] :: ·) (elementForms_render rest depth)
  | cons v rest =>
    rw [elementForms, List.map_cons, elementForms_render rest depth, getD_render,
      formOf_render v depth]
    rfl

theorem memberForms_render (members : JsMembers) (depth : Nat) :
    (memberForms members depth).map (fun m => (m.1, m.2.render)) = memberTexts members depth := by
  cases members with
  | nil => rfl
  | cons k v rest =>
    rw [memberForms, List.map_cons, memberForms_render rest depth, getD_render,
      formOf_render v depth]
    rfl
end

/-! ### Values with the same text -/

theorem maxDepthForm_wellFormed {depth : Nat} {form : Option CanonicalForm}
    (h : ∀ f, form = some f → f.WellFormed) :
    ∀ f, maxDepthForm depth form = some f → f.WellFormed := by
  intro f hf
  unfold maxDepthForm at hf
  split at hf
  · rw [← Option.some.inj hf]
    exact .string
  · exact h f hf

theorem isWord_numberText (x : JsNumber) : isWord (numberText x) = true := by
  cases x with
  | finite q =>
    have hchars : isWord JsNumber.numberChars = true := by decide
    obtain ⟨hplain, hslash⟩ := isWord_iff.mp hchars
    refine isWord_iff.mpr ⟨plain_iff.mpr fun c hc => ?_, fun hmem => ?_⟩
    · exact plain_iff.mp hplain c (JsNumber.finiteChars_subset q c hc)
    · exact hslash (JsNumber.finiteChars_subset q _ hmem)
  | _ => decide

mutual
theorem formOf_wellFormed (v : JsValue) (depth : Nat) :
    ∀ f, formOf v depth = some f → f.WellFormed := by
  cases v with
  | undefined | null =>
    refine maxDepthForm_wellFormed fun f hf => ?_
    rw [← Option.some.inj hf]
    exact .word (by decide)
  | bool b =>
    refine maxDepthForm_wellFormed fun f hf => ?_
    rw [← Option.some.inj hf]
    cases b <;> exact .word (by decide)
  | number x =>
    refine maxDepthForm_wellFormed fun f hf => ?_
    rw [← Option.some.inj hf]
    exact .word (isWord_numberText x)
  | string s =>
    refine maxDepthForm_wellFormed fun f hf => ?_
    rw [← Option.some.inj hf]
    exact .string
  | function => exact maxDepthForm_wellFormed nofun
  | array elements =>
    refine maxDepthForm_wellFormed fun f hf => ?_
    rw [← Option.some.inj hf]
    refine .array (dropBlank_ne _) fun g hg => ?_
    exact elementForms_wellFormed elements (depth + 1) g (mem_of_mem_dropBlank hg)
  | object members | custom members json =>
    refine maxDepthForm_wellFormed fun f hf => ?_
    rw [← Option.some.inj hf]
    refine .object fun m hm => ?_
    exact memberForms_wellFormed members (depth + 1) m ((List.mem_insertionSort _).mp hm)

theorem elementForms_wellFormed (elements : JsElements) (depth : Nat) :
    ∀ f ∈ elementForms elements depth, f.WellFormed := by
  have hblank : (CanonicalForm.word []).WellFormed := .word (by decide)
  cases elements with
  | nil => exact List.forall_mem_nil _
  | hole rest => exact List.forall_mem_cons.mpr ⟨hblank, elementForms_wellFormed rest depth⟩
  | cons v rest =>
    refine List.forall_mem_cons.mpr ⟨?_, elementForms_wellFormed rest depth⟩
    cases hv : formOf v depth with
    | none => exact hblank
    | some f => exact formOf_wellFormed v depth f hv

theorem memberForms_wellFormed (members : JsMembers) (depth : Nat) :
    ∀ m ∈ memberForms members depth, m.2.WellFormed := by
  cases members with
  | nil => exact List.forall_mem_nil _
  | cons k v rest =>
    refine List.forall_mem_cons.mpr ⟨?_, memberForms_wellFormed rest depth⟩
    cases hv : formOf v depth with
    | none => exact .word (by decide)
    | some f => exact formOf_wellFormed v depth f hv
end

/-- The canonical text tells the form of a value and nothing else. -/
theorem canonicalJson_eq_iff (v w : JsValue) (depth : Nat) :
    canonicalJson v depth = canonicalJson w depth ↔ formOf v depth = formOf w depth := by
  rw [← formOf_render, ← formOf_render]
  refine ⟨fun h => ?_, congrArg _⟩
  cases hv : formOf v depth with
  | none =>
    rw [hv, Option.map_none] at h
    exact (Option.map_eq_none_iff.mp h.symm).symm
  | some f =>
    rw [hv, Option.map_some, eq_comm, Option.map_eq_some_iff] at h
    obtain ⟨g, hg, hrender⟩ := h
    have heq := (formOf_wellFormed v depth f hv).eq_of_render (formOf_wellFormed w depth g hg)
      hrender.symm
    rw [hg, heq]

end KirkForge
