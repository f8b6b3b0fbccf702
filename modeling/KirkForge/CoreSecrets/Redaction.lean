import KirkForge.Theory.Json
import KirkForge.Theory.Regex

/-!
# Redaction of secrets

`redactSecrets` and `redactSecretsDeep` (`core-secrets/src/redaction.ts`). The name of a property
decides on its value only if that is a string: what is in an array or an object under such a
property is searched for the patterns, as everything else is (`redactsDeep_iff`).
-/

namespace KirkForge

namespace Redaction

open Regex

/-- `[_-]?` -/
def joiner : Units := Regex.optional (set (oneOf "_-"))

/-- `\s*[=:]\s*["']?` -/
def assigned : Units :=
  concat [star true (set isSpace), set (oneOf "=:"), star true (set isSpace),
    Regex.optional (set (oneOf "\"'"))]

/-- `-----` with `BEGIN` or `END`, and `\s+(?:RSA\s+)?PRIVATE\s+KEY-----` -/
def keyLine (word : String) : Units :=
  concat [literal false ("-----" ++ word), plus (set isSpace),
    Regex.optional (seq (literal false "RSA") (plus (set isSpace))), literal false "PRIVATE",
    plus (set isSpace), literal false "KEY-----"]

/-- `[A-Za-z0-9_-]+` -/
def base64url : Units := plus (set fun u => isAlphanum u || oneOf "_-" u)

def SECRET_PATTERNS : List (Units × String) :=
  [(seq (literal false "AKIA") (times 16 (set fun u => isDigit u || isUpper u)),
      "aws_access_key_id"),
    (concat [boundary, times 40 (set fun u => isAlphanum u || oneOf "/+=" u), boundary],
      "aws_secret_access_key"),
    (concat [
        choice [concat [literal true "api", joiner, literal true "key"], literal true "apikey",
          concat [literal true "secret", joiner, literal true "key"],
          concat [literal true "access", joiner, literal true "key"],
          concat [literal true "auth", joiner, literal true "token"],
          concat [literal true "bearer", joiner, literal true "token"],
          concat [literal true "private", joiner, literal true "key"]],
        assigned, group 1 (atLeast 8 (set fun u => isAlphanum u || oneOf "_-./+=" u)),
        Regex.optional (set (oneOf "\"'"))],
      "api_key_value"),
    (concat [literal false "Bearer", plus (set isSpace),
        plus (set fun u => isAlphanum u || oneOf "-._~+/" u), star true (set (oneOf "="))],
      "bearer_token"),
    (seq (choice [literal false "s.", literal false "hvs."]) (times 24 (set isAlphanum)),
      "vault_token"),
    (concat [literal false "://", plus (set fun u => !oneOf ":" u), literal false ":",
        plus (set fun u => !oneOf "@" u), literal false "@"],
      "connection_string_password"),
    (concat [keyLine "BEGIN", star false (set fun _ => true), keyLine "END"], "private_key"),
    (concat [literal false "eyJ", base64url, literal false ".eyJ", base64url, literal false ".",
        base64url],
      "jwt"),
    (concat [boundary, atLeast 32 (set fun u => isDigit u || range 'a' 'f' u || range 'A' 'F' u),
        boundary],
      "hex_secret"),
    (concat [
        choice (["PASSWORD", "SECRET", "TOKEN", "API_KEY", "PRIVATE_KEY", "AUTH",
          "CREDENTIAL"].map (literal true)),
        assigned, group 1 (atLeast 8 (set fun u => !isSpace u && !oneOf "\"'" u)),
        Regex.optional (set (oneOf "\"'"))],
      "env_secret")]

structure RedactOptions where
  labels : Option (List String) := none
  replacement : Option (String → String) := none

def redactSecrets (options : RedactOptions) (input : String) : String :=
  let replacement := options.replacement.getD fun label => "[REDACTED_" ++ label ++ "]"
  SECRET_PATTERNS.foldl (fun result p =>
    if options.labels.any fun labels => !labels.contains p.2 then result
    else replaceText p.1 (fun _ => replacement p.2) result) input

/-- `/(?:password|secret|token|key|auth|credential|private)/i.test(key)` -/
def isSecretName (key : String) : Bool :=
  testText (choice (["password", "secret", "token", "key", "auth", "credential",
    "private"].map (literal true))) key

/-- `typeof value === "string"` -/
def isString : Json → Bool
  | .str _ => true
  | _ => false

/-- `result[key] = value` for a new key: the key `__proto__` sets the prototype of the result and
is no property of it. -/
def assign (key : String) (value : Json) (rest : List (String × Json)) : List (String × Json) :=
  if key = "__proto__" then rest else (key, value) :: rest

mutual
def redactSecretsDeep (options : RedactOptions) : Json → Json
  | .str s => .str (redactSecrets options s)
  | .arr items => .arr (redactItems options items)
  | .obj fields => .obj (redactFields options fields)
  | .null => .null
  | .bool b => .bool b
  | .num q => .num q

def redactItems (options : RedactOptions) : List Json → List Json
  | [] => []
  | item :: items => redactSecretsDeep options item :: redactItems options items

/-- The entries of an object in their order. -/
def redactFields (options : RedactOptions) : List (String × Json) → List (String × Json)
  | [] => []
  | (key, val) :: rest =>
    assign key (if isString val && isSecretName key then .str "[REDACTED]"
      else redactSecretsDeep options val) (redactFields options rest)
end

/-! ### Places in a value -/

inductive Step
  | key (name : String)
  | index (i : Nat)
  deriving DecidableEq, Repr

def child (v : Json) : Step → Option Json
  | .key name => v.get? name
  | .index i =>
    match v with
    | .arr items => items[i]?
    | _ => none

/-- What a value has at the end of a path. -/
def at? (v : Json) (path : List Step) : Option Json :=
  path.foldlM child v

theorem at?_concat (v : Json) (path : List Step) (s : Step) :
    at? v (path ++ [s]) = (at? v path).bind fun w => child w s := by
  rw [at?, List.foldlM_append]
  simp [at?]

/-- A value without its strings and without what is in it. -/
inductive Shape
  | null
  | bool (b : Bool)
  | num (q : ℚ)
  | str
  | arr (length : Nat)
  | obj (keys : List String)

def shape : Json → Shape
  | .null => .null
  | .bool b => .bool b
  | .num q => .num q
  | .str _ => .str
  | .arr items => .arr items.length
  | .obj fields => .obj (fields.map Prod.fst)

/-- Some property on the path has a name that looks like a secret. -/
def Secret (path : List Step) : Prop := ∃ name, .key name ∈ path ∧ isSecretName name = true

/-- The path ends with a property that has such a name. -/
def EndsSecret (path : List Step) : Prop :=
  ∃ name, path.getLast? = some (.key name) ∧ isSecretName name = true

/-- The same shape everywhere, and at or below a property with such a name no string that was
there, except where it was the replacement. -/
structure RedactsDeep (v w : Json) : Prop where
  shape : ∀ path, (at? w path).map shape = (at? v path).map shape
  hidden : ∀ path s, Secret path → at? v path = some (.str s) → s ≠ "[REDACTED]" →
    at? w path ≠ some (.str s)

/-- Every property named `__proto__` is absent, and every string below a property with a secret
name that is not itself the value of one is changed by `redactSecrets`. -/
structure Redactable (options : RedactOptions) (v : Json) : Prop where
  noProto : ∀ path, .key "__proto__" ∈ path → at? v path = none
  below : ∀ path s, Secret path → ¬EndsSecret path → at? v path = some (.str s) →
    s ≠ "[REDACTED]" → redactSecrets options s ≠ s

/-! ### What is found at a place afterwards -/

variable {options : RedactOptions} {v w : Json} {path : List Step} {s : Step}

/-- What a value becomes as the value of a property. -/
def redactField (options : RedactOptions) (key : String) (val : Json) : Json :=
  if isString val && isSecretName key then .str "[REDACTED]" else redactSecretsDeep options val

/-- What a value becomes at the end of a path. -/
def redactAt (options : RedactOptions) (path : List Step) (v : Json) : Json :=
  match path.getLast? with
  | some (.key name) => redactField options name v
  | _ => redactSecretsDeep options v

theorem redactField_of_not_string {key : String} (h : isString v = false) :
    redactField options key v = redactSecretsDeep options v := by
  rw [redactField, h]
  rfl

theorem redactAt_str (options : RedactOptions) (path : List Step) (text : String) :
    ∃ text', redactAt options path (.str text) = .str text' := by
  rw [redactAt]
  split
  · rw [redactField]
    split
    · exact ⟨_, rfl⟩
    · exact ⟨_, rfl⟩
  · exact ⟨_, rfl⟩

theorem redactAt_of_not_string (path : List Step) (h : isString v = false) :
    redactAt options path v = redactSecretsDeep options v := by
  rw [redactAt]
  split
  · exact redactField_of_not_string h
  · rfl

theorem getElem?_redactItems (items : List Json) (i : Nat) :
    (redactItems options items)[i]? = items[i]?.map (redactSecretsDeep options) := by
  induction items generalizing i with
  | nil => rfl
  | cons item items ih =>
    cases i with
    | zero => rfl
    | succ i => exact ih i

theorem length_redactItems (items : List Json) :
    (redactItems options items).length = items.length := by
  induction items with
  | nil => rfl
  | cons item items ih => exact congrArg (· + 1) ih

theorem lookup_redactFields (name : String) (fields : List (String × Json)) :
    OrderedMap.lookup name (redactFields options fields) =
      if name = "__proto__" then none
      else (OrderedMap.lookup name fields).map (redactField options name) := by
  induction fields with
  | nil =>
    rw [redactFields]
    split <;> rfl
  | cons entry rest ih =>
    obtain ⟨key, val⟩ := entry
    rw [redactFields, assign]
    by_cases hproto : key = "__proto__"
    · rw [if_pos hproto, ih, hproto]
      by_cases hname : name = "__proto__"
      · rw [if_pos hname, if_pos hname]
      · rw [if_neg hname, if_neg hname, OrderedMap.lookup, if_neg fun h => hname h.symm]
    · rw [if_neg hproto, OrderedMap.lookup, OrderedMap.lookup, ih]
      by_cases hkey : key = name
      · subst hkey
        rw [if_pos rfl, if_neg hproto, if_pos rfl]
        rfl
      · rw [if_neg hkey, if_neg hkey]

/-- The keys stay, unless one is lost. -/
theorem keys_redactFields {fields : List (String × Json)}
    (h : OrderedMap.lookup "__proto__" fields = none) :
    (redactFields options fields).map Prod.fst = fields.map Prod.fst := by
  induction fields with
  | nil => rfl
  | cons entry rest ih =>
    obtain ⟨key, val⟩ := entry
    rw [OrderedMap.lookup] at h
    split at h
    · cases h
    · next hkey =>
      rw [redactFields, assign, if_neg hkey, List.map_cons, List.map_cons, ih h]

/-- One step down. -/
theorem child_redactAt (path : List Step) (v : Json) (s : Step) :
    child (redactAt options path v) s =
      if s = .key "__proto__" then none else (child v s).map (redactAt options [s]) := by
  cases v with
  | str text =>
    obtain ⟨text', h⟩ := redactAt_str options path text
    rw [h]
    cases s <;> split <;> rfl
  | null | bool | num =>
    rw [redactAt_of_not_string path rfl]
    cases s <;> split <;> rfl
  | arr items =>
    rw [redactAt_of_not_string path rfl]
    cases s with
    | key name => split <;> rfl
    | index i =>
      rw [if_neg nofun]
      exact getElem?_redactItems items i
  | obj fields =>
    rw [redactAt_of_not_string path rfl]
    cases s with
    | key name =>
      refine (lookup_redactFields name fields).trans ?_
      simp only [Step.key.injEq]
      rfl
    | index i => split <;> rfl

/-- What the result has at a place. -/
theorem at?_redactSecretsDeep (options : RedactOptions) (v : Json) (path : List Step) :
    at? (redactSecretsDeep options v) path =
      if .key "__proto__" ∈ path then none else (at? v path).map (redactAt options path) := by
  induction path using List.reverseRecOn with
  | nil => rfl
  | append_singleton path s ih =>
    rw [at?_concat, at?_concat, ih]
    have hlast (w : Json) : redactAt options (path ++ [s]) w = redactAt options [s] w := by
      rw [redactAt, redactAt, List.getLast?_concat, List.getLast?_singleton]
    by_cases hpath : .key "__proto__" ∈ path
    · rw [if_pos hpath, if_pos (List.mem_append_left _ hpath)]
      rfl
    · rw [if_neg hpath, Option.bind_map]
      cases hv : at? v path with
      | none =>
        split <;> rfl
      | some w =>
        refine (child_redactAt path w s).trans ?_
        simp only [List.mem_append, hpath, false_or, List.mem_singleton, eq_comm (a := s)]
        split
        · rfl
        · exact Option.map_congr fun w _ => (hlast w).symm

theorem shape_redactAt (path : List Step) (h : v.get? "__proto__" = none) :
    shape (redactAt options path v) = shape v := by
  cases v with
  | str text =>
    obtain ⟨text', htext⟩ := redactAt_str options path text
    rw [htext]
    rfl
  | null | bool | num => rw [redactAt_of_not_string path rfl]; rfl
  | arr items =>
    rw [redactAt_of_not_string path rfl]
    exact congrArg Shape.arr (length_redactItems items)
  | obj fields =>
    rw [redactAt_of_not_string path rfl]
    exact congrArg Shape.obj (keys_redactFields h)

/-- A string that is the value of a property with a secret name is replaced as a whole. -/
theorem redactAt_of_endsSecret (h : EndsSecret path) (text : String) :
    redactAt options path (.str text) = .str "[REDACTED]" := by
  obtain ⟨name, hlast, hname⟩ := h
  rw [redactAt, hlast]
  change redactField options name (.str text) = _
  rw [redactField, hname]
  rfl

/-- In any other string only what the patterns find is replaced. -/
theorem redactAt_of_not_endsSecret (h : ¬EndsSecret path) (text : String) :
    redactAt options path (.str text) = .str (redactSecrets options text) := by
  rw [redactAt]
  split
  · next name hlast =>
    have hname : isSecretName name = false := by
      apply Bool.eq_false_iff.mpr
      exact fun hname => h ⟨name, hlast, hname⟩
    rw [redactField, hname, Bool.and_false]
    rfl
  · rfl

theorem redactsDeep_iff (options : RedactOptions) (v : Json) :
    RedactsDeep v (redactSecretsDeep options v) ↔ Redactable options v := by
  have hat := at?_redactSecretsDeep options v
  constructor
  · rintro ⟨hshape, hhidden⟩
    have noProto : ∀ path, .key "__proto__" ∈ path → at? v path = none := by
      intro path hpath
      have h := hshape path
      rw [hat, if_pos hpath] at h
      exact Option.map_eq_none_iff.mp h.symm
    refine ⟨noProto, fun path text hsecret hends htext hne heq => ?_⟩
    apply hhidden path text hsecret htext hne
    have hpath : .key "__proto__" ∉ path := by
      intro hpath
      rw [noProto path hpath] at htext
      cases htext
    rw [hat, if_neg hpath, htext, Option.map_some, redactAt_of_not_endsSecret hends, heq]
  · rintro ⟨noProto, hbelow⟩
    constructor
    · intro path
      rw [hat]
      split
      · next hpath => rw [noProto path hpath]
      · cases hw : at? v path with
        | none => rfl
        | some w =>
          have hproto : w.get? "__proto__" = none := by
            have h := noProto (path ++ [.key "__proto__"])
              (List.mem_append_right _ (List.mem_singleton.mpr rfl))
            rwa [at?_concat, hw] at h
          exact congrArg some (shape_redactAt path hproto)
    · intro path text hsecret htext hne
      rw [hat]
      split
      · nofun
      · rw [htext, Option.map_some]
        by_cases hends : EndsSecret path
        · rw [redactAt_of_endsSecret hends]
          intro h
          exact hne (Json.str.inj (Option.some.inj h)).symm
        · rw [redactAt_of_not_endsSecret hends]
          intro h
          exact hbelow path text hsecret hends htext hne (Json.str.inj (Option.some.inj h))

/-! ### What is left -/

/-- A string in which no pattern is found stays. -/
theorem redactSecrets_of_not_found {text : String}
    (h : ∀ p ∈ SECRET_PATTERNS, testText p.1 text = false) :
    redactSecrets options text = text := by
  unfold redactSecrets
  generalize SECRET_PATTERNS = patterns at h
  induction patterns with
  | nil => rfl
  | cons p patterns ih =>
    have hrest := ih fun q hq => h q (List.mem_cons_of_mem p hq)
    rw [List.foldl_cons, replaceText_of_not_test (h p List.mem_cons_self), ite_self]
    exact hrest

/-- A list of passwords. -/
def passwords : Json := .obj [("passwords", .arr [.str "hunter2"])]

theorem passwords_survive : ¬RedactsDeep passwords (redactSecretsDeep {} passwords) := by
  intro h
  have hsecret : isSecretName "passwords" = true := by decide
  have hnone : SECRET_PATTERNS.all (fun p => testText p.1 "hunter2" = false) = true := by decide
  have hkept : redactSecrets {} "hunter2" = "hunter2" :=
    redactSecrets_of_not_found fun p hp => of_decide_eq_true (List.all_eq_true.mp hnone p hp)
  apply h.hidden [.key "passwords", .index 0] "hunter2" ⟨_, List.mem_cons_self, hsecret⟩ rfl
    (by decide)
  change some (Json.str (redactSecrets {} "hunter2")) = _
  rw [hkept]

end Redaction

end KirkForge
