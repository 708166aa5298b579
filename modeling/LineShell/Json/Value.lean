import LineShell.Number.Shortest
import LineShell.Text.Quoted

/-!
# JSON values

* `Json.Value`: a value; integers and binary64 numbers are different, and strings are any text.
* `Json.Members`: the members of an object, in order.  `Members.put` is how an object is built: a
  key that is there keeps its place and takes the new value, so no key comes twice.
* `Json.Value.display`: a value as it is shown in messages and records.
-/

namespace LineShell.Json

inductive Value
  | null
  | bool (b : Bool)
  | int (n : Int)
  | number (x : Binary64)
  | string (t : Text)
  | array (items : List Value)
  | object (members : List (Text × Value))

abbrev Members := List (Text × Value)

namespace Members

def get? (key : Text) (members : Members) : Option Value :=
  (members.find? (·.1 == key)).map (·.2)

/-- Gives a key a value.  A new key comes last. -/
def put (key : Text) (value : Value) : Members → Members
  | [] => [(key, value)]
  | (k, v) :: rest => if k = key then (key, value) :: rest else (k, v) :: put key value rest

def putAll (members : Members) (later : Members) : Members :=
  later.foldl (fun ms m => ms.put m.1 m.2) members

theorem get?_put (key key' : Text) (value : Value) (members : Members) :
    get? key' (put key value members) = if key' = key then some value else get? key' members := by
  induction members with
  | nil =>
    by_cases h : key' = key
    · simp [put, get?, h]
    · simp [put, get?, h, Ne.symm h]
  | cons m rest ih =>
    obtain ⟨k, v⟩ := m
    simp only [get?] at ih
    by_cases hk : k = key
    · subst hk
      by_cases h : key' = k
      · simp [put, get?, h]
      · simp [put, get?, h, Ne.symm h]
    · by_cases h : k = key'
      · subst h
        simp [put, get?, hk]
      · simp [put, get?, hk, h, ih]

end Members

namespace Value

def isNull : Value → Bool
  | .null => true
  | _ => false

def typeName : Value → Text
  | .null => .ofString "NoneType"
  | .bool _ => .ofString "bool"
  | .int _ => .ofString "int"
  | .number _ => .ofString "float"
  | .string _ => .ofString "str"
  | .array _ => .ofString "list"
  | .object _ => .ofString "dict"

mutual

def display : Value → Text
  | .null => .ofString "None"
  | .bool b => .ofString (if b then "True" else "False")
  | .int n => .ofInt n
  | .number x => x.text
  | .string t => t.quoted
  | .array items => .bracket :: Text.join (.ofString ", ") (displayAll items) ++ [.bracketEnd]
  | .object members =>
    .brace :: Text.join (.ofString ", ") (displayMembers members) ++ [.braceEnd]

def displayAll : List Value → List Text
  | [] => []
  | v :: vs => v.display :: displayAll vs

def displayMembers : List (Text × Value) → List Text
  | [] => []
  | (key, v) :: ms => (key.quoted ++ .ofString ": " ++ v.display) :: displayMembers ms

end

end Value

end LineShell.Json
