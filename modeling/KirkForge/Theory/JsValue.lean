import KirkForge.Theory.Delimited
import KirkForge.Theory.JsNumber
import KirkForge.Theory.Json
import KirkForge.Theory.Text

/-!
# Values that are written as JSON

ECMAScript values and what `JSON.parse(JSON.stringify(v))` makes of them. JSON has no `undefined`,
no functions, no infinities and no NaN: an object loses the members that have no JSON, an array has
`null` in their place, and an object with a method `toJSON` becomes what that method returns. The
keys of an object are distinct. A value that `JSON.stringify` refuses (a cycle, a big integer) is
not one of these.
-/

namespace KirkForge

mutual
inductive JsValue
  | undefined
  | null
  | bool (b : Bool)
  | number (x : JsNumber)
  | string (s : String)
  /-- A function or a symbol. -/
  | function
  | array (elements : JsElements)
  | object (members : JsMembers)
  /-- An object with a method `toJSON`, by its own members and the JSON that it is written as. -/
  | custom (members : JsMembers) (json : Option Json)

/-- The elements of an array, of which any may be a hole. -/
inductive JsElements
  | nil
  | hole (rest : JsElements)
  | cons (value : JsValue) (rest : JsElements)

/-- The enumerable members of an object. -/
inductive JsMembers
  | nil
  | cons (key : String) (value : JsValue) (rest : JsMembers)
end

/-- The value of a member, `undefined` if there is none. -/
def JsMembers.get (key : String) : JsMembers → JsValue
  | .nil => .undefined
  | .cons k v rest => if k = key then v else rest.get key

namespace JsValue

/-- `v === s` for a string. -/
def isString (s : String) : JsValue → Bool
  | string t => t = s
  | _ => false

/-- `s ?? undefined` -/
def optional : Option String → JsValue
  | some s => string s
  | none => undefined

/-- `s ?? null` -/
def nullable : Option String → JsValue
  | some s => string s
  | none => null

def ofStrings (list : List String) : JsValue :=
  array (list.foldr (fun s rest => .cons (string s) rest) .nil)

mutual
/-- The JSON that `JSON.stringify` writes, if it writes any. -/
def toJson : JsValue → Option Json
  | undefined => none
  | null => some .null
  | bool b => some (.bool b)
  | number (.finite q) => some (.num q)
  | number _ => some .null
  | string s => some (.str s)
  | function => none
  | array elements => some (.arr (elementsToJson elements))
  | object members => some (.obj (membersToJson members))
  | custom _ json => json

def elementsToJson : JsElements → List Json
  | .nil => []
  | .hole rest => .null :: elementsToJson rest
  | .cons v rest => (toJson v).getD .null :: elementsToJson rest

def membersToJson : JsMembers → List (String × Json)
  | .nil => []
  | .cons k v rest =>
    match toJson v with
    | none => membersToJson rest
    | some j => (k, j) :: membersToJson rest
end

mutual
/-- The value that `JSON.parse` makes. -/
def ofJson : Json → JsValue
  | .null => null
  | .bool b => bool b
  | .num q => number (.finite q)
  | .str s => string s
  | .arr items => array (ofItems items)
  | .obj fields => object (ofFields fields)

def ofItems : List Json → JsElements
  | [] => .nil
  | j :: items => .cons (ofJson j) (ofItems items)

def ofFields : List (String × Json) → JsMembers
  | [] => .nil
  | (k, j) :: fields => .cons k (ofJson j) (ofFields fields)
end

mutual
theorem toJson_ofJson (j : Json) : toJson (ofJson j) = some j := by
  cases j with
  | arr items => simp only [ofJson, toJson, elementsToJson_ofItems items]
  | obj fields => simp only [ofJson, toJson, membersToJson_ofFields fields]
  | _ => rfl

theorem elementsToJson_ofItems (items : List Json) : elementsToJson (ofItems items) = items := by
  cases items with
  | nil => rfl
  | cons j items =>
    simp only [ofItems, elementsToJson, toJson_ofJson j, elementsToJson_ofItems items,
      Option.getD_some]

theorem membersToJson_ofFields (fields : List (String × Json)) :
    membersToJson (ofFields fields) = fields := by
  cases fields with
  | nil => rfl
  | cons field fields =>
    obtain ⟨k, j⟩ := field
    simp only [ofFields, membersToJson, toJson_ofJson j, membersToJson_ofFields fields]
end

/-! ### Strings -/

/-- How a character is written in a string literal. -/
def quoteChar (c : Char) : List Char :=
  if c = '"' ∨ c = '\\' then ['\\', c]
  else if c.toNat = 0x08 then ['\\', 'b']
  else if c.toNat = 0x09 then ['\\', 't']
  else if c.toNat = 0x0A then ['\\', 'n']
  else if c.toNat = 0x0C then ['\\', 'f']
  else if c.toNat = 0x0D then ['\\', 'r']
  else if c.toNat < 0x20 then
    ['\\', 'u'] ++ ['0'] ++ ['0'] ++ [Nat.digitChar (c.toNat / 16)] ++ [Nat.digitChar (c.toNat % 16)]
  else [c]

/-- `JSON.stringify(s)` for a string. -/
def quote (s : String) : List Char := '"' :: s.toList.flatMap quoteChar ++ ['"']

mutual
/-- The text that `JSON.stringify` writes for a value. -/
def stringify : Json → List Char
  | .null => "null".toList
  | .bool true => "true".toList
  | .bool false => "false".toList
  | .num q => (JsNumber.finite q).text.toList
  | .str s => quote s
  | .arr items => '[' :: Delimited.commaJoin (stringifyItems items) ++ [']']
  | .obj fields => '\x7b' :: Delimited.commaJoin (stringifyFields fields) ++ ['\x7d']

def stringifyItems : List Json → List (List Char)
  | [] => []
  | j :: items => stringify j :: stringifyItems items

def stringifyFields : List (String × Json) → List (List Char)
  | [] => []
  | (k, j) :: fields => (quote k ++ ':' :: stringify j) :: stringifyFields fields
end

theorem inLiteral_quoteChar (c : Char) : Delimited.InLiteral (quoteChar c) := by
  have hdigit : ∀ d < 16, Nat.digitChar d ≠ '"' ∧ Nat.digitChar d ≠ '\\' := by decide
  unfold quoteChar
  split
  · exact Delimited.inLiteral_escape c
  next hspecial =>
  rw [not_or] at hspecial
  repeat' split
  all_goals first
    | exact Delimited.inLiteral_escape _
    | exact Delimited.inLiteral_singleton hspecial.1 hspecial.2
    | skip
  next hlow =>
    obtain ⟨hq, hb⟩ := hdigit (c.toNat / 16) (by omega)
    obtain ⟨hq', hb'⟩ := hdigit (c.toNat % 16) (by omega)
    have hzero : Delimited.InLiteral ['0'] := Delimited.inLiteral_singleton (by decide) (by decide)
    exact ((((Delimited.inLiteral_escape 'u').append hzero).append hzero).append
      (Delimited.inLiteral_singleton hq hb)).append (Delimited.inLiteral_singleton hq' hb')

theorem balanced_quote (s : String) : Delimited.Balanced (quote s) :=
  (Delimited.inLiteral_flatMap fun c _ => inLiteral_quoteChar c).balanced

end JsValue

end KirkForge
