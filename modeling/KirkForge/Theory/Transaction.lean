import Mathlib.Data.Option.Basic

/-!
# Transactions

A database that executes changes, each of which may fail, and the transaction that makes several
changes or none: begin, the changes in order, commit, and a rollback as soon as one of these fails.
A failed statement changes nothing, or else the database has rolled the transaction back by itself.
-/

namespace KirkForge.Transaction

/-- What a database holds: the content, and in a transaction also the content that it began with. -/
structure Content (τ : Type*) where
  current : τ
  saved : Option τ := none

inductive Statement (χ : Type*)
  | begin
  | change (c : χ)
  | commit
  | rollback

variable {χ τ δ : Type*}

/-- What a statement does if it succeeds. -/
def effect (apply : χ → τ → τ) : Statement χ → Content τ → Content τ
  | .begin, c => { c with saved := some c.current }
  | .change x, c => { c with current := apply x c.current }
  | .commit, c => { c with saved := none }
  | .rollback, c => { current := c.saved.getD c.current }

/-- What is known of the execution of statements, which gives the error of a statement that
fails. -/
structure Lawful (apply : χ → τ → τ) (content : δ → Content τ)
    (exec : Statement χ → δ → Option String × δ) : Prop where
  succeeds : ∀ s db, (exec s db).1 = none → content (exec s db).2 = effect apply s (content db)
  fails : ∀ s db, (exec s db).1 ≠ none → content (exec s db).2 = content db ∨
    content (exec s db).2 = effect apply .rollback (content db)
  /-- There is nothing to roll back when a rollback fails. -/
  rollback_fails : ∀ db, (exec .rollback db).1 ≠ none → (content db).saved = none

/-- The changes in order, up to the first that fails. -/
def execAll (exec : Statement χ → δ → Option String × δ) : List (Statement χ) → δ → Option String × δ
  | [], db => (none, db)
  | s :: statements, db =>
    match exec s db with
    | (none, db) => execAll exec statements db
    | (some cause, db) => (some cause, db)

/-- The changes in one transaction. -/
def transaction (exec : Statement χ → δ → Option String × δ) (changes : List χ) (db : δ) :
    Option String × δ :=
  match exec .begin db with
  | (some cause, db) => (some cause, db)
  | (none, db) =>
    match execAll exec (changes.map .change ++ [.commit]) db with
    | (none, db) => (none, db)
    | (some cause, db) => (some cause, (exec .rollback db).2)

variable {apply : χ → τ → τ} {content : δ → Content τ} {exec : Statement χ → δ → Option String × δ}

theorem effect_rollback_of_none {c : Content τ} (h : c.saved = none) :
    effect apply .rollback c = c := by
  obtain ⟨current, saved⟩ := c
  cases h
  rfl

/-- Outside of a transaction, a failed statement changes nothing. -/
theorem Lawful.content_of_fails (h : Lawful apply content exec) {s : Statement χ} {db : δ}
    (hfails : (exec s db).1 ≠ none) (hnone : (content db).saved = none) :
    content (exec s db).2 = content db := by
  rcases h.fails s db hfails with hsame | hback
  · exact hsame
  · rw [hback, effect_rollback_of_none hnone]

/-- A failed statement leaves what a rollback makes of the content. -/
theorem Lawful.rollback_of_fails (h : Lawful apply content exec) {s : Statement χ} {db : δ}
    (hfails : (exec s db).1 ≠ none) :
    effect apply .rollback (content (exec s db).2) = effect apply .rollback (content db) := by
  rcases h.fails s db hfails with hsame | hback
  · rw [hsame]
  · rw [hback]
    rfl

/-- A rollback takes place in any case. -/
theorem Lawful.content_rollback (h : Lawful apply content exec) (db : δ) :
    content (exec .rollback db).2 = effect apply .rollback (content db) := by
  by_cases hok : (exec .rollback db).1 = none
  · exact h.succeeds .rollback db hok
  · have hnone := h.rollback_fails db hok
    rw [h.content_of_fails hok hnone, effect_rollback_of_none hnone]

/-- Within a transaction, changes and commit are all made, or the content can be rolled back. -/
theorem Lawful.execAll_changes (h : Lawful apply content exec) (changes : List χ) {db : δ}
    {old new : τ} (hdb : content db = ⟨new, some old⟩) :
    match execAll exec (changes.map .change ++ [.commit]) db with
    | (none, db') => content db' = ⟨changes.foldl (fun t x => apply x t) new, none⟩
    | (some _, db') => effect apply .rollback (content db') = ⟨old, none⟩ := by
  induction changes generalizing db new with
  | nil =>
    simp only [List.map_nil, List.nil_append, execAll]
    rcases hexec : exec .commit db with ⟨_ | cause, db'⟩
    · have hcommit := h.succeeds .commit db (by rw [hexec])
      rw [hexec, hdb] at hcommit
      exact hcommit
    · have hfails : (exec .commit db).1 ≠ none := by
        rw [hexec]
        nofun
      have hback := h.rollback_of_fails hfails
      rw [hexec, hdb] at hback
      exact hback
  | cons x changes ih =>
    simp only [List.map_cons, List.cons_append, execAll]
    rcases hexec : exec (.change x) db with ⟨_ | cause, db'⟩
    · have hchange := h.succeeds (.change x) db (by rw [hexec])
      rw [hexec, hdb] at hchange
      exact ih hchange
    · have hfails : (exec (.change x) db).1 ≠ none := by
        rw [hexec]
        nofun
      have hback := h.rollback_of_fails hfails
      rw [hexec, hdb] at hback
      exact hback

/-- A transaction makes all of its changes if it succeeds and none if it fails. -/
theorem Lawful.transaction_atomic (h : Lawful apply content exec) (changes : List χ) {db : δ} {t : τ}
    (hdb : content db = ⟨t, none⟩) :
    match transaction exec changes db with
    | (none, db') => content db' = ⟨changes.foldl (fun t x => apply x t) t, none⟩
    | (some _, db') => content db' = ⟨t, none⟩ := by
  simp only [transaction]
  rcases hbegin : exec .begin db with ⟨_ | cause, db₁⟩
  · have hopen := h.succeeds .begin db (by rw [hbegin])
    rw [hbegin, hdb] at hopen
    have hall := h.execAll_changes changes hopen
    simp only
    rcases hexec : execAll exec (changes.map .change ++ [.commit]) db₁ with ⟨_ | cause, db₂⟩
    · rw [hexec] at hall ⊢
      exact hall
    · rw [hexec] at hall ⊢
      exact (h.content_rollback db₂).trans hall
  · have hfails : (exec .begin db).1 ≠ none := by
      rw [hbegin]
      nofun
    have hsame := h.content_of_fails hfails (by rw [hdb])
    rw [hbegin, hdb] at hsame
    exact hsame

/-- Statements that all succeed have all their effects. -/
theorem Lawful.execAll_succeeds (h : Lawful apply content exec) {statements : List (Statement χ)}
    {db db' : δ} (hall : execAll exec statements db = (none, db')) :
    content db' = statements.foldl (fun c s => effect apply s c) (content db) := by
  induction statements generalizing db with
  | nil =>
    cases hall
    rfl
  | cons s statements ih =>
    rw [execAll] at hall
    rcases hexec : exec s db with ⟨_ | cause, db₁⟩
    · rw [hexec] at hall
      have heffect := h.succeeds s db (by rw [hexec])
      rw [hexec] at heffect
      rw [ih hall, heffect, List.foldl_cons]
    · rw [hexec] at hall
      cases hall

theorem foldl_effect_change (changes : List χ) (c : Content τ) :
    (changes.map Statement.change).foldl (fun c s => effect apply s c) c =
      { c with current := changes.foldl (fun t x => apply x t) c.current } := by
  induction changes generalizing c with
  | nil => rfl
  | cons x changes ih =>
    rw [List.map_cons, List.foldl_cons, ih]
    rfl

/-- A transaction that succeeds has made its changes, whatever was open before. -/
theorem Lawful.transaction_succeeds (h : Lawful apply content exec) (changes : List χ) (db : δ)
    (hok : (transaction exec changes db).1 = none) :
    content (transaction exec changes db).2 =
      ⟨changes.foldl (fun t x => apply x t) (content db).current, none⟩ := by
  simp only [transaction] at hok ⊢
  rcases hbegin : exec .begin db with ⟨_ | cause, db₁⟩
  · rw [hbegin] at hok
    have hopen := h.succeeds .begin db (by rw [hbegin])
    rw [hbegin] at hopen
    simp only at hok hopen ⊢
    rcases hexec : execAll exec (changes.map .change ++ [.commit]) db₁ with ⟨_ | cause, db₂⟩
    · have hall := h.execAll_succeeds hexec
      rw [List.foldl_append, foldl_effect_change, hopen] at hall
      rw [hexec]
      exact hall
    · rw [hexec] at hok
      cases hok
  · rw [hbegin] at hok
    cases hok

end KirkForge.Transaction

/-!
## Scripts

Statements one after the other, each of which changes nothing if it fails. A script stops at a
failure unless this is caught, and it stops anywhere when the process ends, so that it may be
executed many times before it gets to its end. What a statement is there for holds from then on if
no statement takes it back.
-/

namespace KirkForge.Script

variable {σ κ : Type*}

/-- What becomes of a statement, apart from the state in which it is executed. -/
inductive Fate
  | executed
  | fails
  /-- The process ends before it. -/
  | interrupted
  deriving DecidableEq

structure Entry (κ : Type*) where
  statement : κ
  /-- A failure is caught. -/
  tolerated : Bool := false
  deriving DecidableEq

/-- The script from statement `n` on: whether it gets to its end, and the state that it leaves. -/
def run (exec : κ → σ → Option σ) (fate : Nat → Fate) : Nat → List (Entry κ) → σ → Bool × σ
  | _, [], s => (true, s)
  | n, entry :: entries, s =>
    let result := if fate n = .executed then exec entry.statement s else none
    match result with
    | some s => run exec fate (n + 1) entries s
    | none =>
      if entry.tolerated && fate n ≠ .interrupted then run exec fate (n + 1) entries s else (false, s)

variable {exec : κ → σ → Option σ} {fate : Nat → Fate}

/-- An invariant of the statements holds of the state that a script leaves. -/
theorem run_invariant {I : σ → Prop} {entries : List (Entry κ)}
    (hexec : ∀ entry ∈ entries, ∀ s s', I s → exec entry.statement s = some s' → I s') (n : Nat)
    {s : σ} (hs : I s) : I (run exec fate n entries s).2 := by
  induction entries generalizing n s with
  | nil => exact hs
  | cons entry entries ih =>
    obtain ⟨hentry, hentries⟩ := List.forall_mem_cons.mp hexec
    rw [run]
    split
    · next s' hresult =>
      have hs' : exec entry.statement s = some s' := by
        split at hresult
        · exact hresult
        · cases hresult
      exact ih hentries (n + 1) (hentry s s' hs hs')
    · split
      · exact ih hentries (n + 1) hs
      · exact hs

/-- What holds between a state and the next also holds between the first and the last. -/
theorem run_related {R : σ → σ → Prop} (hrefl : ∀ s, R s s)
    (htrans : ∀ s t u, R s t → R t u → R s u)
    (hexec : ∀ statement s s', exec statement s = some s' → R s s') (n : Nat)
    (entries : List (Entry κ)) (s : σ) : R s (run exec fate n entries s).2 := by
  apply run_invariant _ n (hrefl s)
  exact fun entry _ t t' ht hexecuted => htrans s t t' ht (hexec _ t t' hexecuted)

/-- Once a script has got to its end, every statement whose failure is not caught has done what it
is there for. -/
theorem run_goals {goal : κ → σ → Prop}
    (hestablished : ∀ statement s s', exec statement s = some s' → goal statement s')
    (hkept : ∀ statement s, goal statement s → ∀ other s', exec other s = some s' →
      goal statement s') {n : Nat} {entries : List (Entry κ)} {s : σ}
    (hend : (run exec fate n entries s).1 = true) :
    ∀ entry ∈ entries, entry.tolerated = false →
      goal entry.statement (run exec fate n entries s).2 := by
  induction entries generalizing n s with
  | nil => exact List.forall_mem_nil _
  | cons entry entries ih =>
    rw [run] at hend ⊢
    split at hend
    · next s' hresult =>
      have hs : exec entry.statement s = some s' := by
        split at hresult
        · exact hresult
        · cases hresult
      refine List.forall_mem_cons.mpr ⟨fun _ => ?_, ih hend⟩
      apply run_invariant _ (n + 1) (hestablished _ s s' hs)
      exact fun other _ t t' ht hexecuted => hkept _ t ht _ t' hexecuted
    · next hresult =>
      split at hend
      · next htolerated =>
        rw [if_pos htolerated]
        refine List.forall_mem_cons.mpr ⟨fun hnot => ?_, ih hend⟩
        rw [hnot] at htolerated
        cases htolerated
      · cases hend

/-- A script in which nothing fails for a cause of its own gets to its end, with everything done, if
every statement, once those in front of it have done what they are there for, can be executed or is
one whose failure is caught and means that there is nothing left to do. -/
theorem run_executed {I : σ → Prop} {goal : κ → σ → Prop} (hfate : ∀ n, fate n = .executed)
    {entries : List (Entry κ)}
    (hinvariant : ∀ entry ∈ entries, ∀ s s', I s → exec entry.statement s = some s' → I s')
    (hestablished : ∀ statement s s', exec statement s = some s' → goal statement s')
    (hkept : ∀ statement s, goal statement s → ∀ other s', exec other s = some s' →
      goal statement s')
    (hready : ∀ front entry back, entries = front ++ entry :: back → ∀ s, I s →
      (∀ e ∈ front, goal e.statement s) → exec entry.statement s = none →
      entry.tolerated = true ∧ goal entry.statement s)
    (n : Nat) {s : σ} (hs : I s) :
    (run exec fate n entries s).1 = true ∧
      ∀ e ∈ entries, goal e.statement (run exec fate n entries s).2 := by
  have hrest (rest : List (Entry κ)) : ∀ (front : List (Entry κ)) (n : Nat) (s : σ),
      entries = front ++ rest → I s → (∀ e ∈ front, goal e.statement s) →
      (run exec fate n rest s).1 = true ∧
        ∀ e ∈ entries, goal e.statement (run exec fate n rest s).2 := by
    induction rest with
    | nil =>
      intro front n s hentries _ hgoals
      rw [hentries, List.append_nil]
      exact ⟨rfl, hgoals⟩
    | cons entry rest ih =>
      intro front n s hentries hs hgoals
      have hnext : entries = front ++ [entry] ++ rest := by simp [hentries]
      rw [run, if_pos (hfate n)]
      split
      · next s' hresult =>
        have hs' := hinvariant entry (by simp [hentries]) s s' hs hresult
        apply ih (front ++ [entry]) (n + 1) s' hnext hs'
        refine List.forall_mem_append.mpr ⟨fun e he => ?_, List.forall_mem_singleton.mpr ?_⟩
        · exact hkept _ s (hgoals e he) _ s' hresult
        · exact hestablished _ s s' hresult
      · next hresult =>
        obtain ⟨htolerated, hgoal⟩ := hready front entry rest hentries s hs hgoals hresult
        rw [htolerated, hfate n, if_pos (by decide)]
        apply ih (front ++ [entry]) (n + 1) s hnext hs
        exact List.forall_mem_append.mpr ⟨hgoals, List.forall_mem_singleton.mpr hgoal⟩
  exact hrest entries [] n s rfl hs (List.forall_mem_nil _)

end KirkForge.Script
