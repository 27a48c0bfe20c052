import ClientBoundary.Json.Token
import ClientBoundary.Json.Value

/-!
# Reading JSON

Values from tokens. Arrays and objects are nested at most `Json.maxDepth` deep.
-/

namespace ClientBoundary

namespace Json

/-- How deep arrays and objects may be nested. -/
def maxDepth : Nat := 127

/-- A reader of values: the value and the tokens behind it. -/
abbrev Reading := List JsonToken → Option (Json × List JsonToken)

/-- Items behind the first one, up to the closing bracket. -/
def restItems (read : Reading) : (fuel : Nat) → List JsonToken →
    Option (List Json × List JsonToken)
  | 0, _ => none
  | fuel + 1, ts =>
    match ts with
    | .bracketClose :: ts => some ([], ts)
    | .comma :: ts => do
      let (item, ts) ← read ts
      let (items, ts) ← restItems read fuel ts
      return (item :: items, ts)
    | _ => none

/-- The items of an array behind its opening bracket. -/
def items (read : Reading) (ts : List JsonToken) : Option (List Json × List JsonToken) :=
  match ts with
  | .bracketClose :: ts => some ([], ts)
  | ts => do
    let (item, ts) ← read ts
    let (items, ts) ← restItems read (ts.length + 1) ts
    return (item :: items, ts)

/-- A key with its value. -/
def member (read : Reading) : List JsonToken → Option ((String × Json) × List JsonToken)
  | .string key :: .colon :: ts => do
    let (value, ts) ← read ts
    return ((key, value), ts)
  | _ => none

/-- Members behind the first one, up to the closing brace. -/
def restMembers (read : Reading) : (fuel : Nat) → List JsonToken →
    Option (List (String × Json) × List JsonToken)
  | 0, _ => none
  | fuel + 1, ts =>
    match ts with
    | .braceClose :: ts => some ([], ts)
    | .comma :: ts => do
      let (m, ts) ← member read ts
      let (ms, ts) ← restMembers read fuel ts
      return (m :: ms, ts)
    | _ => none

/-- The members of an object behind its opening brace. -/
def members (read : Reading) (ts : List JsonToken) :
    Option (List (String × Json) × List JsonToken) :=
  match ts with
  | .braceClose :: ts => some ([], ts)
  | ts => do
    let (m, ts) ← member read ts
    let (ms, ts) ← restMembers read (ts.length + 1) ts
    return (m :: ms, ts)

/-- A value without parts. -/
def atom : List JsonToken → Option (Json × List JsonToken)
  | .string s :: ts => some (string s, ts)
  | .number literal :: ts => some (number literal, ts)
  | .word w :: ts =>
    if w = "true" then some (bool true, ts)
    else if w = "false" then some (bool false, ts)
    else some (null, ts)
  | _ => none

/-- A value nested at most `depth` deep, and the tokens behind it. What is made of the members of an object
is left to `close`. -/
def value (close : List (String × Json) → Json) : (depth : Nat) → Reading
  | 0, ts => atom ts
  | depth + 1, ts =>
    match ts with
    | .bracketOpen :: ts => do
      let (items, ts) ← items (value close depth) ts
      return (array items, ts)
    | .braceOpen :: ts => do
      let (members, ts) ← members (value close depth) ts
      return (close members, ts)
    | ts => atom ts

/-- The value of a document, with objects made by `close`. -/
def document? (close : List (String × Json) → Json) (source : String) : Option Json :=
  match (JsonToken.scan? 0 source.toList).bind (value close maxDepth) with
  | some (v, []) => some v
  | _ => none

/-- The value of a document. -/
def parse? (source : String) : Option Json := document? ofMembers source

end Json

end ClientBoundary
