/-!
# JSON values

An object is a list of members in the order they are written. An object that is read, and any that
`Json.ofMembers` makes, has **distinct keys in increasing order**; the last value of a key wins.
-/

namespace ClientBoundary

/-- A JSON value. A number is kept as it is written. -/
inductive Json where
  | null
  | bool (value : Bool)
  | number (literal : String)
  | string (value : String)
  | array (items : List Json)
  | object (members : List (String × Json))

namespace Json

instance : Inhabited Json := ⟨null⟩

/-- Members with `value` under `key`, in the order of their keys. -/
def put (key : String) (value : Json) : List (String × Json) → List (String × Json)
  | [] => [(key, value)]
  | (k, v) :: rest =>
    if key < k then (key, value) :: (k, v) :: rest
    else if key = k then (key, value) :: rest
    else (k, v) :: put key value rest

/-- The object that arises when members are put one after the other. -/
def ofMembers (members : List (String × Json)) : Json :=
  object (members.foldl (fun done (key, value) => put key value done) [])

/-- The value of an object's key. -/
def get? (key : String) : Json → Option Json
  | object members => members.lookup key
  | _ => none

/-- The text of a string. -/
def text? : Json → Option String
  | string s => some s
  | _ => none

/-- The members of an object. -/
def members? : Json → Option (List (String × Json))
  | object members => some members
  | _ => none

/-- The items of an array. -/
def items? : Json → Option (List Json)
  | array items => some items
  | _ => none

/-- The number that a literal of digits stands for. -/
def nat? : Json → Option Nat
  | number literal =>
    let cs := literal.toList
    if !cs.isEmpty && cs.all Char.isDigit then
      some (cs.foldl (fun n c => 10 * n + (c.toNat - 48)) 0)
    else none
  | _ => none

end Json

end ClientBoundary
