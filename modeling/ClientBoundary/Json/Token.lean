import ClientBoundary.Json.Numeral

/-!
# JSON tokens

A document is a list of tokens with blanks between them. Strings are decoded here.
-/

namespace ClientBoundary

/-- A token of a JSON document. -/
inductive JsonToken where
  | braceOpen | braceClose | bracketOpen | bracketClose | comma | colon
  | string (value : String)
  | number (literal : String)
  | word (text : String)
deriving DecidableEq, Inhabited

namespace JsonToken

/-- Characters between tokens. -/
def isBlank (c : Char) : Bool := c == ' ' || c == '\t' || c == '\n' || c == '\r'

/-- The value of a hexadecimal digit. -/
def hex? (c : Char) : Option Nat :=
  if c.isDigit then some (c.toNat - 48)
  else if 'a' ≤ c && c ≤ 'f' then some (c.toNat - 87)
  else if 'A' ≤ c && c ≤ 'F' then some (c.toNat - 55)
  else none

/-- The value of four hexadecimal digits. -/
def unit? : List Char → Option Nat
  | a :: b :: c :: d :: _ => do
    return ((← hex? a) * 16 + (← hex? b)) * 256 + (← hex? c) * 16 + (← hex? d)
  | _ => none

/-- The character of `\u` escapes and the length behind the backslash. Halves of pairs stand only in
pairs. -/
def unicode? (cs : List Char) : Option (Char × Nat) := do
  let high ← unit? cs
  if high < 0xd800 || 0xdfff < high then return (Char.ofNat high, 5)
  if 0xdc00 ≤ high then none
  match cs.drop 4 with
  | '\\' :: 'u' :: after =>
    let low ← unit? after
    if 0xdc00 ≤ low && low ≤ 0xdfff then
      return (Char.ofNat (0x10000 + (high - 0xd800) * 0x400 + (low - 0xdc00)), 11)
    else none
  | _ => none

/-- The character of an escape and its length behind the backslash. -/
def escape? : List Char → Option (Char × Nat)
  | '"' :: _ => some ('"', 1)
  | '\\' :: _ => some ('\\', 1)
  | '/' :: _ => some ('/', 1)
  | 'b' :: _ => some ('\x08', 1)
  | 'f' :: _ => some ('\x0c', 1)
  | 'n' :: _ => some ('\n', 1)
  | 'r' :: _ => some ('\r', 1)
  | 't' :: _ => some ('\t', 1)
  | 'u' :: cs => unicode? cs
  | _ => none

/-- Reads the text behind an opening quote: its characters, and the length with the closing
quote. -/
def string? : (skip : Nat) → List Char → Option (List Char × Nat)
  | _, [] => none
  | skip + 1, _ :: cs => (string? skip cs).map fun (text, n) => (text, n + 1)
  | 0, c :: cs =>
    if c == '"' then some ([], 1)
    else if c.toNat < 0x20 then none
    else if c == '\\' then
      (escape? cs).bind fun (decoded, n) =>
        (string? n cs).map fun (text, k) => (decoded :: text, k + 1)
    else (string? 0 cs).map fun (text, n) => (c :: text, n + 1)

/-- The words of JSON. -/
def words : List String := ["true", "false", "null"]

/-- The token at the start of a text, and its length. -/
def first? : List Char → Option (JsonToken × Nat)
  | [] => none
  | c :: cs =>
    if c == '\x7b' then some (braceOpen, 1)
    else if c == '\x7d' then some (braceClose, 1)
    else if c == '[' then some (bracketOpen, 1)
    else if c == ']' then some (bracketClose, 1)
    else if c == ',' then some (comma, 1)
    else if c == ':' then some (colon, 1)
    else if c == '"' then
      (string? 0 cs).map fun (text, n) => (string (String.ofList text), n + 1)
    else if c == '-' || c.isDigit then
      (Numeral.length? (c :: cs)).map fun n => (number (String.ofList ((c :: cs).take n)), n)
    else
      (words.find? fun w => w.toList.isPrefixOf (c :: cs)).map fun w => (word w, w.length)

/-- The tokens of a text; `skip` characters belong to a token that was read. -/
def scan? : (skip : Nat) → List Char → Option (List JsonToken)
  | _, [] => some []
  | skip + 1, _ :: cs => scan? skip cs
  | 0, c :: cs =>
    if isBlank c then scan? 0 cs
    else
      (first? (c :: cs)).bind fun (token, n) =>
        (scan? (n - 1) cs).map fun tokens => token :: tokens

end JsonToken

end ClientBoundary
