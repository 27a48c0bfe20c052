import ClientBoundary.Script.Lexer.Gap

/-!
# Escapes

What follows a backslash in names, strings and templates. Every reader answers the decoded value
together with the number of characters it covers.
-/

namespace ClientBoundary

namespace Escape

/-- The value of a hexadecimal digit. -/
def hexDigit? (c : Char) : Option Nat :=
  if c.isDigit then some (c.toNat - 48)
  else if 'a' ≤ c && c ≤ 'f' then some (c.toNat - 87)
  else if 'A' ≤ c && c ≤ 'F' then some (c.toNat - 55)
  else none

/-- The value of exactly `n` hexadecimal digits at the start of a text. -/
def hexDigits? : (n : Nat) → (value : Nat) → List Char → Option Nat
  | 0, value, _ => some value
  | _ + 1, _, [] => none
  | n + 1, value, c :: cs => (hexDigit? c).bind fun d => hexDigits? n (16 * value + d) cs

/-- The value and length of digits that run up to a closing brace; at least one digit, and no value
beyond the last code point. -/
def braced? : (value : Nat) → (n : Nat) → List Char → Option (Nat × Nat)
  | _, _, [] => none
  | value, n, c :: cs =>
    if c == '\x7d' then (if n = 0 then none else some (value, n + 1))
    else (hexDigit? c).bind fun d =>
      if 0x10ffff < 16 * value + d then none else braced? (16 * value + d) (n + 1) cs

/-- The code after `\u`: four digits, or digits in braces. -/
def unicode? : List Char → Option (Nat × Nat)
  | '\x7b' :: cs => (braced? 0 0 cs).map fun (value, n) => (value, n + 1)
  | cs => (hexDigits? 4 0 cs).map fun value => (value, 4)

/-- The first unit of a surrogate pair. -/
def isHigh (unit : Nat) : Bool := 0xd800 ≤ unit && unit ≤ 0xdbff

/-- The second unit of a surrogate pair. -/
def isLow (unit : Nat) : Bool := 0xdc00 ≤ unit && unit ≤ 0xdfff

/-- The code after `\u` in a string, where two escapes may form one code point. -/
def paired? (cs : List Char) : Option (Nat × Nat) :=
  match unicode? cs with
  | some (high, 4) =>
    if isHigh high && cs.head? != some '\x7b' then
      match cs.drop 4 with
      | '\\' :: 'u' :: after =>
        match hexDigits? 4 0 after with
        | some low =>
          if isLow low then some (0x10000 + (high - 0xd800) * 0x400 + (low - 0xdc00), 10)
          else some (high, 4)
        | none => some (high, 4)
      | _ => some (high, 4)
    else some (high, 4)
  | found => found

/-- Octal digits at the start of a text: at most `n` of them, as value and length. -/
def octal : (n : Nat) → (value : Nat) → (count : Nat) → List Char → Nat × Nat
  | 0, value, count, _ => (value, count)
  | _, value, count, [] => (value, count)
  | n + 1, value, count, c :: cs =>
    if '0' ≤ c && c ≤ '7' then octal n (8 * value + (c.toNat - 48)) (count + 1) cs
    else (value, count)

/-- What a backslash and the text behind it stand for. -/
inductive Meaning where
  /-- a code unit or code point, with the number of characters behind the backslash -/
  | code (value : Nat) (length : Nat)
  /-- nothing: the line goes on -/
  | joined (length : Nat)
  /-- no meaning; the length is that of the character behind the backslash -/
  | invalid (length : Nat)

/-- The meaning of the text behind a backslash. In a template, octal digits have none. -/
def meaning (inTemplate : Bool) : List Char → Meaning
  | [] => .invalid 0
  | '\r' :: '\n' :: _ => .joined 2
  | 'n' :: _ => .code 10 1
  | 'r' :: _ => .code 13 1
  | 't' :: _ => .code 9 1
  | 'b' :: _ => .code 8 1
  | 'v' :: _ => .code 11 1
  | 'f' :: _ => .code 12 1
  | 'x' :: cs =>
    match hexDigits? 2 0 cs with
    | some value => .code value 3
    | none => .invalid 1
  | 'u' :: cs =>
    match paired? cs with
    | some (value, n) => .code value (n + 1)
    | none => .invalid 1
  | c :: cs =>
    if Gap.isLineEnd c then .joined 1
    else if c.isDigit then
      if inTemplate then
        if c == '0' && !(cs.head?.any Char.isDigit) then .code 0 1 else .invalid 1
      else if '8' ≤ c then .code c.toNat 1
      else
        let (value, n) := octal (if '4' ≤ c then 2 else 3) 0 0 (c :: cs)
        .code value n
    else .code c.toNat 1

end Escape

end ClientBoundary
