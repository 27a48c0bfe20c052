import ClientBoundary.Json.Value

/-!
# Writing JSON

`Json.pretty` writes a value over several lines, two blanks deeper for each level; empty arrays and
objects stay on one line.
-/

namespace ClientBoundary

namespace Json

/-- The lower-case hexadecimal digit of a number below sixteen. -/
def hexDigit (n : Nat) : Char := if n < 10 then Char.ofNat (48 + n) else Char.ofNat (87 + n)

/-- How a character is written inside quotes. -/
def escapeChar (c : Char) : List Char :=
  if c == '"' then ['\\', '"']
  else if c == '\\' then ['\\', '\\']
  else if c == '\x08' then ['\\', 'b']
  else if c == '\t' then ['\\', 't']
  else if c == '\n' then ['\\', 'n']
  else if c == '\x0c' then ['\\', 'f']
  else if c == '\r' then ['\\', 'r']
  else if c.toNat < 0x20 then
    ['\\', 'u', '0', '0', hexDigit (c.toNat / 16), hexDigit (c.toNat % 16)]
  else [c]

/-- A text in quotes. -/
def quote (s : String) : String :=
  String.ofList ('"' :: s.toList.flatMap escapeChar ++ ['"'])

/-- A line end with the blanks of a level. -/
def newline (level : Nat) : String := "\n" ++ String.ofList (List.replicate (2 * level) ' ')

/-- Texts between brackets, each on a line of its own. -/
def bracket (left right : String) (level : Nat) (parts : List String) : String :=
  if parts.isEmpty then left ++ right
  else
    left ++ newline (level + 1) ++ String.intercalate ("," ++ newline (level + 1)) parts ++
      newline level ++ right

mutual

/-- A value at a level of nesting. -/
def prettyAt (level : Nat) : Json → String
  | null => "null"
  | bool true => "true"
  | bool false => "false"
  | number literal => literal
  | string s => quote s
  | array items => bracket "[" "]" level (prettyItems (level + 1) items)
  | object members => bracket "\x7b" "\x7d" level (prettyMembers (level + 1) members)

/-- The items of an array. -/
def prettyItems (level : Nat) : List Json → List String
  | [] => []
  | item :: rest => prettyAt level item :: prettyItems level rest

/-- The members of an object. -/
def prettyMembers (level : Nat) : List (String × Json) → List String
  | [] => []
  | (key, value) :: rest => (quote key ++ ": " ++ prettyAt level value) :: prettyMembers level rest

end

/-- A value over several lines. -/
def pretty (v : Json) : String := prettyAt 0 v

end Json

end ClientBoundary
