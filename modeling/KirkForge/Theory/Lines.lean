import KirkForge.Theory.Text

/-!
# Files of lines

A text file as the lines it consists of, each ended by a newline; the last one may lack it. Cutting
off the white space at the end before the text is split gives the same lines, provided that none of
them is empty or ends in white space.
-/

namespace KirkForge.Text

/-- The text of the lines. -/
def unlines (lines : List String) : String := String.join (lines.map (· ++ "\n"))

/-- The lines of a text. -/
def lines (content : String) : List String :=
  let parts := split '\n' content
  if parts.getLast? = some "" then parts.dropLast else parts

/-- `content.trimEnd().split("\n")`, without any line if nothing but white space is there. -/
def trimmedLines (content : String) : List String :=
  if trimEnd content.toList = [] then []
  else split '\n' (String.ofList (trimEnd content.toList))

/-- Something that stands on one line, and that does not end in white space. -/
structure IsLine (line : String) : Prop where
  oneLine : '\n' ∉ line.toList
  ending : ∃ cs c, line.toList = cs ++ [c] ∧ isWhitespace c = false

/-! ### White space at the end -/

theorem trimEnd_append {cs ws : List Char} (h : ∀ c ∈ ws, isWhitespace c = true) :
    trimEnd (cs ++ ws) = trimEnd cs := by
  have hdrop : (ws.reverse ++ cs.reverse).dropWhile isWhitespace =
      cs.reverse.dropWhile isWhitespace := by
    rw [List.dropWhile_append_of_pos fun c hc => h c (List.mem_reverse.mp hc)]
  rw [trimEnd, trimEnd, trimStart, trimStart, List.reverse_append, hdrop]

theorem trimEnd_concat (cs : List Char) {c : Char} (h : isWhitespace c = false) :
    trimEnd (cs ++ [c]) = cs ++ [c] := by
  rw [trimEnd, trimStart, List.reverse_append, List.reverse_singleton, List.singleton_append,
    List.dropWhile_cons_of_neg (by simp [h])]
  simp

/-! ### Joined lines -/

/-- The lines with a newline between each two of them. -/
def joinLines (lines : List String) : List Char := ['\n'].intercalate (lines.map String.toList)

theorem joinLines_cons_cons (l l' : String) (ls : List String) :
    joinLines (l :: l' :: ls) = l.toList ++ '\n' :: joinLines (l' :: ls) := by
  simp [joinLines, List.intercalate_cons_cons]

theorem toList_unlines (ls : List String) (h : ls ≠ []) :
    (unlines ls).toList = joinLines ls ++ ['\n'] := by
  induction ls with
  | nil => exact absurd rfl h
  | cons l ls ih =>
    have hcons : (unlines (l :: ls)).toList = l.toList ++ '\n' :: (unlines ls).toList := by
      simp [unlines, String.join_cons]
    rw [hcons]
    cases ls with
    | nil => simp [unlines, joinLines, String.join_nil]
    | cons l' ls => rw [ih (List.cons_ne_nil _ _), joinLines_cons_cons]; simp

theorem unlines_concat (ls : List String) (l : String) :
    unlines (ls ++ [l]) = unlines ls ++ (l ++ "\n") := by
  rw [unlines, List.map_append, String.join_append, List.map_singleton, String.join_cons,
    String.join_nil, String.append_empty, unlines]

theorem exists_joinLines_concat {ls : List String} (h : ∀ l ∈ ls, IsLine l) (hne : ls ≠ []) :
    ∃ cs c, joinLines ls = cs ++ [c] ∧ isWhitespace c = false := by
  induction ls with
  | nil => exact absurd rfl hne
  | cons l ls ih =>
    obtain ⟨hl, hls⟩ := List.forall_mem_cons.mp h
    cases ls with
    | nil =>
      obtain ⟨cs, c, hcs, hc⟩ := hl.ending
      exact ⟨cs, c, by simp [joinLines, hcs], hc⟩
    | cons l' ls =>
      obtain ⟨cs, c, hcs, hc⟩ := ih hls (List.cons_ne_nil _ _)
      exact ⟨l.toList ++ '\n' :: cs, c, by simp [joinLines_cons_cons, hcs], hc⟩

theorem joinLines_concat_nil {ls : List String} (hne : ls ≠ []) :
    joinLines (ls ++ [""]) = joinLines ls ++ ['\n'] := by
  induction ls with
  | nil => exact absurd rfl hne
  | cons l ls ih =>
    cases ls with
    | nil => simp [joinLines]
    | cons l' ls =>
      rw [List.cons_append, List.cons_append, joinLines_cons_cons, ← List.cons_append,
        ih (List.cons_ne_nil _ _), joinLines_cons_cons]
      simp

theorem split_joinLines {ls : List String} (h : ∀ l ∈ ls, '\n' ∉ l.toList) (hne : ls ≠ []) :
    split '\n' (String.ofList (joinLines ls)) = ls := by
  have hsplit : (joinLines ls).splitOn '\n' = ls.map String.toList := by
    refine List.splitOn_intercalate '\n' ?_ (by simpa using hne)
    intro cs hcs
    obtain ⟨l, hl, rfl⟩ := List.mem_map.mp hcs
    exact h l hl
  rw [split, String.toList_ofList, hsplit, List.map_map]
  simp

theorem joinLines_split (content : String) : joinLines (split '\n' content) = content.toList := by
  have hmap : (split '\n' content).map String.toList = content.toList.splitOn '\n' := by
    rw [split, List.map_map]
    simp
  rw [joinLines, hmap, List.intercalate_splitOn]

/-- A text is made of its lines, with or without a newline at the end. -/
theorem toList_of_lines {content : String} (hne : lines content ≠ []) :
    content.toList = joinLines (lines content) ∨
      content.toList = joinLines (lines content) ++ ['\n'] := by
  rw [← joinLines_split content]
  rw [lines] at hne ⊢
  split
  · next h =>
    rw [if_pos h] at hne
    refine .inr ?_
    conv_lhs => rw [← List.dropLast_append_getLast? "" h]
    exact joinLines_concat_nil hne
  · exact .inl rfl

theorem toList_of_lines_nil {content : String} (h : lines content = []) : content.toList = [] := by
  rw [← joinLines_split content]
  rw [lines] at h
  split at h
  · next hlast =>
    rw [← List.dropLast_append_getLast? "" hlast, h]
    rfl
  · rw [h]
    rfl

/-- The white space that is cut off is at most one newline. -/
theorem trimmedLines_eq_lines {content : String} (h : ∀ l ∈ lines content, IsLine l) :
    trimmedLines content = lines content := by
  by_cases hne : lines content = []
  · rw [hne, trimmedLines, toList_of_lines_nil hne]
    rfl
  obtain ⟨cs, c, hjoin, hc⟩ := exists_joinLines_concat h hne
  have htrim : trimEnd content.toList = joinLines (lines content) := by
    rcases toList_of_lines hne with htext | htext
    · rw [htext, hjoin, trimEnd_concat cs hc]
    · rw [htext, trimEnd_append (by simp [show isWhitespace '\n' = true from rfl]), hjoin,
        trimEnd_concat cs hc]
  rw [trimmedLines, htrim, if_neg (by simp [hjoin]),
    split_joinLines (fun l hl => (h l hl).oneLine) hne]

theorem lines_unlines {ls : List String} (h : ∀ l ∈ ls, IsLine l) : lines (unlines ls) = ls := by
  cases ls with
  | nil => rfl
  | cons l ls =>
    have hall : ∀ x ∈ l :: ls ++ [""], '\n' ∉ x.toList := by
      intro x hx
      rcases List.mem_append.mp hx with hx | hx
      · exact (h x hx).oneLine
      · rw [List.mem_singleton.mp hx]
        exact List.not_mem_nil
    have hsplit : split '\n' (unlines (l :: ls)) = l :: ls ++ [""] := by
      have htext := toList_unlines (l :: ls) (List.cons_ne_nil _ _)
      rw [← joinLines_concat_nil (List.cons_ne_nil _ _)] at htext
      rw [← String.ofList_toList (s := unlines (l :: ls)), htext,
        split_joinLines hall (List.append_ne_nil_of_right_ne_nil _ (List.cons_ne_nil _ _))]
    rw [lines, hsplit, List.getLast?_concat, if_pos rfl, List.dropLast_concat]

theorem trimmedLines_unlines {ls : List String} (h : ∀ l ∈ ls, IsLine l) :
    trimmedLines (unlines ls) = ls := by
  have hlines := lines_unlines h
  rw [trimmedLines_eq_lines (by rwa [hlines]), hlines]

end KirkForge.Text
