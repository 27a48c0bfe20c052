import ClientBoundary.Text.Blank

/-!
# JSON with comments

Configuration files may hold comments and a comma after the last item. `JsonComments.strip` makes
plain JSON of such a text: **comments** go, a **comma before a closing bracket** goes with the blanks
behind it, and the inside of strings stays as it is.
-/

namespace ClientBoundary

namespace JsonComments

/-- Where in the text a character stands. -/
inductive Place where
  /-- between tokens -/
  | between
  /-- behind a slash that starts a comment -/
  | slash
  /-- in a comment that ends with its line -/
  | line
  /-- in a bracketed comment; `starred` if the character before is a star of its inside -/
  | block (starred : Bool)
  /-- in a string -/
  | string
  /-- behind a backslash in a string -/
  | escaped
deriving DecidableEq

/-- What was written, last character first, without a comma at its end. -/
def dropComma (written : List Char) : List Char :=
  match written.dropWhile Text.isBlank with
  | ',' :: rest => rest
  | _ => written

/-- Goes through a text; `written` holds what is kept, last character first. -/
def go : Place → (written : List Char) → List Char → List Char
  | _, written, [] => written.reverse
  | .between, written, c :: cs =>
    if c == '"' then go .string (c :: written) cs
    else if c == '/' then
      match cs.head? with
      | some '/' => go .line written cs
      | some '*' => go .slash written cs
      | _ => go .between (c :: written) cs
    else if c == ']' || c == '\x7d' then go .between (c :: dropComma written) cs
    else go .between (c :: written) cs
  | .slash, written, _ :: cs => go (.block false) written cs
  | .line, written, c :: cs =>
    if c == '\n' then go .between (c :: written) cs else go .line written cs
  | .block starred, written, c :: cs =>
    if starred && c == '/' then go .between written cs else go (.block (c == '*')) written cs
  | .string, written, c :: cs =>
    if c == '\\' then go .escaped (c :: written) cs
    else if c == '"' then go .between (c :: written) cs
    else go .string (c :: written) cs
  | .escaped, written, c :: cs => go .string (c :: written) cs

/-- A text without comments and without commas before closing brackets. -/
def strip (source : String) : String := String.ofList (go .between [] source.toList)

end JsonComments

end ClientBoundary
