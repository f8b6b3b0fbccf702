import KirkForge.CoreRbac.Rbac
import KirkForge.Theory.Occurrence
import KirkForge.Theory.OrderedMap
import KirkForge.Theory.Outcome
import Mathlib.Data.List.TakeWhile

/-!
# The variable OIDC_GROUP_ROLE_MAP

`parseGroupRoleMapping` of the plugin (`auth-middleware.ts`) and the copy of it in the daemon
(`serve.ts`) read a list of pairs `role:group`. Both take a group to end at its first colon, leave
out one that is empty, and lose `__proto__`, which cannot be assigned on an object. All other maps
are read back as they were written (`roundTrips_iff`).
-/

namespace KirkForge.GroupRoles

def VALID_ROLES : List Role := [.admin, .operator, .developer, .viewer]

/-- The role that is a member of `VALID_ROLES` under this name. -/
def validRole (name : String) : Option Role := VALID_ROLES.find? fun role => role.name = name

def invalidRole (name : String) : String :=
  "Invalid role \"" ++ name ++
    "\" in OIDC_GROUP_ROLE_MAP. Valid roles: admin, operator, developer, viewer"

/-- `mapping[group] = role` on an object literal, which has an accessor for `__proto__`. -/
def assign (mapping : OrderedMap String Role) (group : String) (role : Role) :
    OrderedMap String Role :=
  if group = "__proto__" then mapping else mapping.set group role

def assignRole (mapping : OrderedMap String Role) (role group : String) :
    Except String (OrderedMap String Role) :=
  match validRole role with
  | some role => .ok (assign mapping group role)
  | none => .error (invalidRole role)

/-- A pair in the plugin. -/
def pluginPair (mapping : OrderedMap String Role) (pair : String) :
    Except String (OrderedMap String Role) :=
  match Text.split ':' (Text.trim pair) with
  | role :: group :: _ =>
    if role ≠ "" ∧ group ≠ "" then assignRole mapping (Text.trim role) (Text.trim group)
    else .ok mapping
  | _ => .ok mapping

/-- A pair in the daemon. -/
def servePair (mapping : OrderedMap String Role) (pair : String) :
    Except String (OrderedMap String Role) :=
  match (Text.split ':' pair).map Text.trim with
  | role :: group :: _ =>
    if role ≠ "" ∧ group ≠ "" then assignRole mapping role group else .ok mapping
  | _ => .ok mapping

/-- The loop over the pairs. -/
def parsePairs (readPair : OrderedMap String Role → String → Except String (OrderedMap String Role))
    (envValue : Option String) : Except String (Option (OrderedMap String Role)) :=
  match envValue with
  | none => .ok none
  | some value =>
    if value = "" then .ok none
    else ((Text.split ',' value).foldlM readPair ∅).map fun mapping =>
      if mapping.entries = [] then none else some mapping

/-- `parseGroupRoleMapping` of the plugin. -/
def parseGroupRoleMapping : Option String → Except String (Option (OrderedMap String Role)) :=
  parsePairs pluginPair

/-- `parseGroupRoleMapping` of the daemon. -/
def serveGroupRoleMapping : Option String → Except String (Option (OrderedMap String Role)) :=
  parsePairs servePair

/-! ### Rendering -/

/-- A map that the variable can be set to: no group has a comma, or white space at its ends. -/
structure Groups where
  roles : OrderedMap String Role
  nonempty : roles.entries ≠ []
  noComma : ∀ group ∈ roles.keys, ',' ∉ group.toList
  trimmed : ∀ group ∈ roles.keys, Text.trim group = group

def renderPair (e : String × Role) : String := e.2.name ++ ":" ++ e.1

def Groups.render (m : Groups) : String := Text.join "," (m.roles.entries.map renderPair)

/-- The part of a group before its first colon. -/
def firstPart (group : String) : String := String.ofList (group.toList.takeWhile (· ≠ ':'))

variable {mapping : OrderedMap String Role} {role : Role} {group : String} {m : Groups}

theorem validRole_name (role : Role) : validRole role.name = some role := by
  cases role <;> decide

theorem takeWhile_colon {c : Char} (hc : c ≠ ':') (cs : List Char) :
    (c :: cs).takeWhile (· ≠ ':') = c :: cs.takeWhile (· ≠ ':') :=
  List.takeWhile_cons_of_pos (decide_eq_true hc)

theorem splitOn_eq_cons (cs : List Char) :
    ∃ rest, cs.splitOn ':' = cs.takeWhile (· ≠ ':') :: rest := by
  induction cs with
  | nil => exact ⟨[], rfl⟩
  | cons c cs ih =>
    obtain ⟨rest, hrest⟩ := ih
    rw [List.splitOn_cons_eq_if_modifyHead, hrest]
    by_cases hc : c = ':'
    · subst hc
      exact ⟨_, rfl⟩
    · refine ⟨rest, ?_⟩
      rw [if_neg (by simpa using hc), List.modifyHead_cons, takeWhile_colon hc]

theorem colon_notMem_name (role : Role) : ':' ∉ role.name.toList := by
  cases role <;> decide

theorem toList_renderPair (e : String × Role) :
    (renderPair e).toList = e.2.name.toList ++ ':' :: e.1.toList := by
  rw [renderPair, String.toList_append, String.toList_append, List.append_assoc]
  rfl

theorem split_renderPair (e : String × Role) :
    ∃ rest, Text.split ':' (renderPair e) = e.2.name :: firstPart e.1 :: rest := by
  obtain ⟨rest, hrest⟩ := splitOn_eq_cons e.1.toList
  refine ⟨rest.map String.ofList, ?_⟩
  rw [Text.split, toList_renderPair,
    List.splitOn_append_cons_self_of_not_mem (colon_notMem_name e.2), hrest, List.map_cons,
    List.map_cons, String.ofList_toList, firstPart]

/-! ### White space -/

theorem trimStart_of_trim (h : Text.trim group = group) :
    Text.trimStart group.toList = group.toList := by
  have hchars : Text.trimEnd (Text.trimStart group.toList) = group.toList := by
    rw [← String.toList_ofList (l := Text.trimEnd _), ← Text.trim, h]
  refine (Text.trimStart_suffix _).eq_of_length_le ?_
  have hlength := (Text.trimEnd_isPrefix (Text.trimStart group.toList)).length_le
  rwa [hchars] at hlength

theorem trimEnd_of_trim (h : Text.trim group = group) :
    Text.trimEnd group.toList = group.toList := by
  have hchars : Text.trimEnd (Text.trimStart group.toList) = group.toList := by
    rw [← String.toList_ofList (l := Text.trimEnd _), ← Text.trim, h]
  rwa [trimStart_of_trim h] at hchars

theorem trim_name (role : Role) : Text.trim role.name = role.name := by
  cases role <;> decide

theorem trim_renderPair {e : String × Role} (h : Text.trim e.1 = e.1) :
    Text.trim (renderPair e) = renderPair e := by
  have hcolon : Text.isWhitespace ':' = false := by decide
  rw [Text.trim, toList_renderPair, Text.trimStart_append_cons hcolon,
    Text.trimEnd_append_cons hcolon, trimStart_of_trim (trim_name e.2), trimEnd_of_trim h,
    ← toList_renderPair, String.ofList_toList]

/-- A group that starts with no white space has none at the start of its first part. -/
theorem trim_firstPart_ne (h : Text.trim group = group) (hne : firstPart group ≠ "") :
    Text.trim (firstPart group) ≠ "" := by
  have hstart := trimStart_of_trim h
  rw [firstPart] at hne ⊢
  cases hgroup : group.toList with
  | nil =>
    rw [hgroup] at hne
    exact absurd rfl hne
  | cons c cs =>
    rw [hgroup] at hne hstart
    have hspace : Text.isWhitespace c = false :=
      Text.not_isWhitespace_of_trim (s := group) (by rw [h, hgroup]; rfl)
    have hc : c ≠ ':' := by
      rintro rfl
      exact absurd rfl hne
    have htrim (tail : List Char) : Text.trimEnd (Text.trimStart (c :: tail)) =
        c :: Text.trimEnd tail :=
      (congrArg Text.trimEnd (@Text.trimStart_append_cons [] tail c hspace)).trans
        (@Text.trimEnd_append_cons [] tail c hspace)
    rw [takeWhile_colon hc, Text.trim, String.toList_ofList, htrim]
    intro hempty
    have hchars := congrArg String.toList hempty
    rw [String.toList_ofList] at hchars
    cases hchars

/-! ### What is read back -/

/-- What both copies do with a pair of a rendered map. -/
def readEntry (mapping : OrderedMap String Role) (e : String × Role) : OrderedMap String Role :=
  if firstPart e.1 = "" then mapping else assign mapping (Text.trim (firstPart e.1)) e.2

theorem assignRole_name (mapping : OrderedMap String Role) (role : Role) (group : String) :
    assignRole mapping role.name group = .ok (assign mapping group role) := by
  rw [assignRole, validRole_name]

theorem name_ne_empty (role : Role) : role.name ≠ "" := by
  cases role <;> decide

theorem pluginPair_render {e : String × Role} (h : Text.trim e.1 = e.1) :
    pluginPair mapping (renderPair e) = .ok (readEntry mapping e) := by
  obtain ⟨rest, hrest⟩ := split_renderPair e
  rw [pluginPair, trim_renderPair h, hrest]
  dsimp only
  rw [trim_name, assignRole_name, readEntry]
  by_cases hfirst : firstPart e.1 = ""
  · rw [if_neg fun hboth => hboth.2 hfirst, if_pos hfirst]
  · rw [if_pos ⟨name_ne_empty e.2, hfirst⟩, if_neg hfirst]

theorem servePair_render {e : String × Role} (h : Text.trim e.1 = e.1) :
    servePair mapping (renderPair e) = .ok (readEntry mapping e) := by
  obtain ⟨rest, hrest⟩ := split_renderPair e
  rw [servePair, hrest, List.map_cons, List.map_cons]
  dsimp only
  rw [trim_name, assignRole_name, readEntry]
  by_cases hfirst : firstPart e.1 = ""
  · rw [hfirst, if_neg fun hboth => hboth.2 (by decide), if_pos rfl]
  · rw [if_pos ⟨name_ne_empty e.2, trim_firstPart_ne h hfirst⟩, if_neg hfirst]

/-- The map that both copies read from a rendered one. -/
def Groups.readBack (m : Groups) : OrderedMap String Role := m.roles.entries.foldl readEntry ∅

theorem foldlM_map {readPair : OrderedMap String Role → String →
      Except String (OrderedMap String Role)} {entries : List (String × Role)}
    (h : ∀ mapping, ∀ e ∈ entries, readPair mapping (renderPair e) = .ok (readEntry mapping e))
    (mapping : OrderedMap String Role) : (entries.map renderPair).foldlM readPair mapping =
      .ok (entries.foldl readEntry mapping) := by
  induction entries generalizing mapping with
  | nil => rfl
  | cons e entries ih =>
    rw [List.map_cons, List.foldlM_cons, h mapping e List.mem_cons_self, ExceptRules.ok_bind,
      ih (fun mapping e' he' => h mapping e' (List.mem_cons_of_mem e he')), List.foldl_cons]

theorem comma_notMem_renderPair {e : String × Role} (h : ',' ∉ e.1.toList) :
    ',' ∉ (renderPair e).toList := by
  have hname : ',' ∉ e.2.name.toList := by cases e.2 <;> decide
  rw [toList_renderPair]
  intro hmem
  rcases List.mem_append.mp hmem with hmem | hmem
  · exact hname hmem
  · rcases List.mem_cons.mp hmem with hcolon | hmem
    · exact absurd hcolon (by decide)
    · exact h hmem

theorem key_mem {e : String × Role} (he : e ∈ m.roles.entries) : e.1 ∈ m.roles.keys :=
  List.mem_map_of_mem he

theorem split_render (m : Groups) : Text.split ',' m.render = m.roles.entries.map renderPair := by
  have hcomma : ∀ cs ∈ (m.roles.entries.map renderPair).map String.toList, ',' ∉ cs := by
    intro cs hcs
    obtain ⟨pair, hpair, rfl⟩ := List.mem_map.mp hcs
    obtain ⟨e, he, rfl⟩ := List.mem_map.mp hpair
    exact comma_notMem_renderPair (m.noComma e.1 (key_mem he))
  have hne : (m.roles.entries.map renderPair).map String.toList ≠ [] := by
    simpa using m.nonempty
  have hjoin : m.render.toList =
      [','].intercalate ((m.roles.entries.map renderPair).map String.toList) :=
    String.toList_intercalate
  rw [Text.split, hjoin, List.splitOn_intercalate ',' hcomma hne, List.map_map]
  exact (List.map_congr_left fun _ _ => String.ofList_toList).trans (List.map_id _)

theorem render_ne_empty (m : Groups) : m.render ≠ "" := by
  intro h
  have hsplit := split_render m
  have hempty : "" ∈ m.roles.entries.map renderPair := by
    rw [← hsplit, h]
    exact List.mem_singleton_self ""
  obtain ⟨e, -, he⟩ := List.mem_map.mp hempty
  have hchars := congrArg String.toList he
  rw [toList_renderPair] at hchars
  exact List.append_ne_nil_of_right_ne_nil _ (List.cons_ne_nil _ _) hchars

theorem parsePairs_render {readPair : OrderedMap String Role → String →
      Except String (OrderedMap String Role)}
    (h : ∀ mapping, ∀ e ∈ m.roles.entries,
      readPair mapping (renderPair e) = .ok (readEntry mapping e)) :
    parsePairs readPair (some m.render) =
      .ok (if m.readBack.entries = [] then none else some m.readBack) := by
  show (if m.render = "" then _ else _) = _
  rw [if_neg (render_ne_empty m), split_render, foldlM_map h]
  rfl

theorem parseGroupRoleMapping_render (m : Groups) : parseGroupRoleMapping (some m.render) =
    .ok (if m.readBack.entries = [] then none else some m.readBack) :=
  parsePairs_render fun _ e he => pluginPair_render (m.trimmed e.1 (key_mem he))

theorem serveGroupRoleMapping_render (m : Groups) : serveGroupRoleMapping (some m.render) =
    .ok (if m.readBack.entries = [] then none else some m.readBack) :=
  parsePairs_render fun _ e he => servePair_render (m.trimmed e.1 (key_mem he))

/-! ### Round trips -/

/-- A group that is read as it was written. -/
structure Plain (group : String) : Prop where
  nonempty : group ≠ ""
  noColon : ':' ∉ group.toList
  noProto : group ≠ "__proto__"

theorem colon_notMem_trim {cs : List Char} (h : ':' ∉ cs) :
    ':' ∉ (Text.trim (String.ofList cs)).toList := by
  rw [Text.trim, String.toList_ofList, String.toList_ofList]
  intro hmem
  exact h ((Text.trimStart_suffix cs).subset ((Text.trimEnd_isPrefix _).subset hmem))

/-- The groups that are read back are plain. -/
theorem plain_of_foldl {entries : List (String × Role)}
    (htrim : ∀ e ∈ entries, Text.trim e.1 = e.1)
    (h : (entries.foldl readEntry mapping).get? group = some role) :
    mapping.get? group = some role ∨ Plain group := by
  induction entries generalizing mapping with
  | nil => exact .inl h
  | cons e entries ih =>
    obtain ⟨he, htrim⟩ := List.forall_mem_cons.mp htrim
    rcases ih htrim h with h | h
    · rw [readEntry] at h
      split at h
      · exact .inl h
      · next hfirst =>
        rw [assign] at h
        split at h
        · exact .inl h
        · next hproto =>
          rw [OrderedMap.get?_set] at h
          split at h
          · next hgroup =>
            subst hgroup
            have hcolon : ':' ∉ e.1.toList.takeWhile (· ≠ ':') := by
              intro hmem
              have hne := List.mem_takeWhile_imp hmem
              simp at hne
            exact .inr ⟨trim_firstPart_ne he hfirst, colon_notMem_trim hcolon, hproto⟩
          · exact .inl h
    · exact .inr h

theorem plain_of_readBack (h : m.readBack.get? group = some role) : Plain group := by
  have htrim : ∀ e ∈ m.roles.entries, Text.trim e.1 = e.1 := fun e he =>
    m.trimmed e.1 (key_mem he)
  rcases plain_of_foldl htrim h with h | h
  · cases h
  · exact h

theorem firstPart_of_plain (h : ':' ∉ group.toList) : firstPart group = group := by
  have hall : group.toList.takeWhile (· ≠ ':') = group.toList :=
    List.takeWhile_eq_self_iff.mpr fun c hc => decide_eq_true fun hcolon => h (hcolon ▸ hc)
  rw [firstPart, hall, String.ofList_toList]

theorem readEntry_of_plain {e : String × Role} (h : Plain e.1) (htrim : Text.trim e.1 = e.1) :
    readEntry mapping e = mapping.set e.1 e.2 := by
  rw [readEntry, firstPart_of_plain h.noColon, if_neg h.nonempty, htrim, assign, if_neg h.noProto]

/-- A map of plain groups is read back. -/
theorem get?_readBack (h : ∀ group ∈ m.roles.keys, Plain group) (group : String) :
    m.readBack.get? group = m.roles.get? group := by
  have hset : ∀ entries : List (String × Role), (∀ e ∈ entries, e ∈ m.roles.entries) →
      ∀ mapping, entries.foldl readEntry mapping =
        entries.foldl (fun mapping e => mapping.set e.1 e.2) mapping := by
    intro entries hmem
    induction entries with
    | nil => exact fun _ => rfl
    | cons e entries ih =>
      intro mapping
      obtain ⟨he, hrest⟩ := List.forall_mem_cons.mp hmem
      rw [List.foldl_cons, List.foldl_cons,
        readEntry_of_plain (h e.1 (key_mem he)) (m.trimmed e.1 (key_mem he)), ih hrest]
  rw [Groups.readBack, hset m.roles.entries (fun _ he => he)]
  have hobserve := OrderedMap.foldl_observe (o := fun key mapping => mapping.get? key)
    (f := fun (mapping : OrderedMap String Role) (e : String × Role) => mapping.set e.1 e.2)
    (g := fun _ role => some role) (fun mapping e key => OrderedMap.get?_set mapping e.1 key e.2)
    m.roles.nodup ∅ group
  refine hobserve.trans ?_
  show (m.roles.get? group).elim none some = m.roles.get? group
  cases m.roles.get? group <;> rfl

/-- The rendering of a map is read as a map with the same groups and roles. -/
def RoundTrips (parse : Option String → Except String (Option (OrderedMap String Role)))
    (m : Groups) : Prop :=
  ∃ mapping, parse (some m.render) = .ok (some mapping) ∧
    ∀ group, mapping.get? group = m.roles.get? group

theorem roundTrips_of_parse
    {parse : Option String → Except String (Option (OrderedMap String Role))}
    (hparse : parse (some m.render) =
      .ok (if m.readBack.entries = [] then none else some m.readBack)) :
    RoundTrips parse m ↔ ∀ group ∈ m.roles.keys, Plain group := by
  constructor
  · rintro ⟨mapping, h, hsame⟩ group hgroup
    rw [hparse] at h
    obtain ⟨role, hrole⟩ := Option.isSome_iff_exists.mp
      (OrderedMap.has_iff_mem_keys.mpr hgroup)
    split at h
    · cases h
    · obtain rfl : m.readBack = mapping := Option.some.inj (Except.ok.inj h)
      exact plain_of_readBack ((hsame group).trans hrole)
  · intro hplain
    have hget := get?_readBack hplain
    refine ⟨m.readBack, ?_, hget⟩
    rw [hparse, if_neg]
    intro hempty
    obtain ⟨e, entries, hentries⟩ := List.exists_cons_of_ne_nil m.nonempty
    have hmem : e ∈ m.roles.entries := hentries ▸ List.mem_cons_self
    have hread : m.readBack.get? e.1 = some e.2 :=
      (hget e.1).trans (OrderedMap.mem_entries_iff.mp hmem)
    have hnone : (e.1, e.2) ∈ m.readBack.entries := OrderedMap.mem_entries_iff.mpr hread
    rw [hempty] at hnone
    exact absurd hnone List.not_mem_nil

/-- Both copies read a map back exactly if no group is empty, has a colon or is `__proto__`. -/
theorem roundTrips_iff (m : Groups) :
    RoundTrips parseGroupRoleMapping m ∧ RoundTrips serveGroupRoleMapping m ↔
      ∀ group ∈ m.roles.keys, Plain group := by
  rw [roundTrips_of_parse (parseGroupRoleMapping_render m),
    roundTrips_of_parse (serveGroupRoleMapping_render m), and_self]

/-- The administrators by a group with a colon. -/
def urnAdmins : Groups where
  roles := (∅ : OrderedMap String Role).set "urn:admins" .admin
  nonempty := by decide
  noComma := by decide
  trimmed := by decide

/-- Another group is given the role. -/
theorem urn_is_cut : (¬RoundTrips parseGroupRoleMapping urnAdmins ∧
      ¬RoundTrips serveGroupRoleMapping urnAdmins) ∧
    urnAdmins.roles.get? "urn" = none ∧ urnAdmins.readBack.get? "urn" = some .admin := by
  have hnot : ¬∀ group ∈ urnAdmins.roles.keys, Plain group := by
    intro h
    exact absurd (h "urn:admins" (by decide)).noColon (by decide)
  refine ⟨⟨?_, ?_⟩, by decide, by decide⟩
  · rwa [roundTrips_of_parse (parseGroupRoleMapping_render urnAdmins)]
  · rwa [roundTrips_of_parse (serveGroupRoleMapping_render urnAdmins)]

end KirkForge.GroupRoles
