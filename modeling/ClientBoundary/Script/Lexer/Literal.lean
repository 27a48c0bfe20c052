import ClientBoundary.Script.Letter
import ClientBoundary.Script.Lexer.Escape

/-!
# Literals

Strings, templates, patterns and numbers. Readers answer a length in characters, or `none` for a
text that is no literal.
-/

namespace ClientBoundary

namespace Literal

/-! ## Strings -/

/-- Whether a code is half of a surrogate pair and so no character. -/
def isLone (code : Nat) : Bool := 0xd800 ≤ code && code ≤ 0xdfff

/-- The lower-case hexadecimal digit of a number below sixteen. -/
def hexChar (n : Nat) : Char := if n < 10 then Char.ofNat (48 + n) else Char.ofNat (87 + n)

/-- A code as a replacement character and four hexadecimal digits. -/
def spelled (code : Nat) : List Char :=
  ['\ufffd', hexChar (code / 4096 % 16), hexChar (code / 256 % 16), hexChar (code / 16 % 16),
   hexChar (code % 16)]

/-- The text of a sequence of codes. Where half a pair occurs, it is spelled out, and so is every
replacement character, which keeps the two apart. -/
def textOfCodes (codes : List Nat) : String :=
  if codes.any isLone then
    String.ofList (codes.flatMap fun code =>
      if isLone code || code = 0xfffd then spelled code else [Char.ofNat code])
  else String.ofList (codes.map Char.ofNat)

/-- Reads the text behind an opening quote: the codes, and the length with the closing quote. -/
def string? (quote : Char) : (skip : Nat) → List Char → Option (List Nat × Nat)
  | _, [] => none
  | skip + 1, _ :: cs => (string? quote skip cs).map fun (codes, n) => (codes, n + 1)
  | 0, c :: cs =>
    if c == quote then some ([], 1)
    else if c == '\n' || c == '\r' then none
    else if c == '\\' then
      match Escape.meaning false cs with
      | .code value n =>
        (string? quote n cs).map fun (codes, k) => (value :: codes, k + 1)
      | .joined n => (string? quote n cs).map fun (codes, k) => (codes, k + 1)
      | .invalid _ => none
    else (string? quote 0 cs).map fun (codes, n) => (c.toNat :: codes, n + 1)

/-! ## Templates -/

/-- A stretch of a template. -/
structure Stretch where
  /-- characters covered, the delimiter at the end included -/
  length : Nat
  /-- it ends the template; otherwise a hole follows -/
  closed : Bool
  /-- every escape has a meaning -/
  valid : Bool

/-- Reads a template up to its end or the next hole. -/
def template? : (skip : Nat) → List Char → Option Stretch
  | _, [] => none
  | skip + 1, _ :: cs => (template? skip cs).map fun s => { s with length := s.length + 1 }
  | 0, c :: cs =>
    if c == '\x60' then some ⟨1, true, true⟩
    else if c == '$' && cs.head? == some '\x7b' then some ⟨2, false, true⟩
    else if c == '\\' then
      match Escape.meaning true cs with
      | .code _ n | .joined n => (template? n cs).map fun s => { s with length := s.length + 1 }
      | .invalid n =>
        (template? n cs).map fun s => { s with length := s.length + 1, valid := false }
    else (template? 0 cs).map fun s => { s with length := s.length + 1 }

/-! ## Patterns -/

/-- The length of a pattern's body and closing slash. -/
def patternBody? : (escaped : Bool) → (inClass : Bool) → List Char → Option Nat
  | _, _, [] => none
  | escaped, inClass, c :: cs =>
    if Gap.isLineEnd c then none
    else if escaped then (patternBody? false inClass cs).map (· + 1)
    else if c == '/' && !inClass then some 1
    else (patternBody? (c == '\\') ((inClass || c == '[') && c != ']') cs).map (· + 1)

/-- Characters read as flags. -/
def isFlag (c : Char) : Bool := c.isAlphanum || c == '$' || c == '_'

/-- The flags that exist. -/
def flags : List Char := ['d', 'g', 'i', 'm', 's', 'u', 'v', 'y']

/-- The length of a pattern with its flags, from the slash on. Every flag exists and is set once. -/
def pattern? : List Char → Option Nat
  | '/' :: cs =>
    (patternBody? false false cs).bind fun n =>
      let set := (cs.drop n).takeWhile isFlag
      if set.all flags.contains && set.eraseDups.length == set.length then
        some (1 + n + set.length)
      else none
  | _ => none

/-! ## Numbers -/

/-- The length of digits with single separators between them; `none` where a separator is not
between two digits. `after` says that a digit stands before. -/
def digits? (digit : Char → Bool) : (after : Bool) → List Char → Option Nat
  | _, [] => some 0
  | after, c :: cs =>
    if digit c then (digits? digit true cs).map (· + 1)
    else if c == '_' && after then
      if cs.head?.any digit then (digits? digit false cs).map (· + 1) else none
    else some 0

/-- The length of an exponent, if one is there. -/
def exponent? : List Char → Option Nat
  | [] => some 0
  | c :: cs =>
    if c == 'e' || c == 'E' then
      let sign := if cs.head? == some '+' || cs.head? == some '-' then 1 else 0
      let after := cs.drop sign
      if after.head?.any Char.isDigit then
        (digits? Char.isDigit false after).map (1 + sign + ·)
      else none
    else some 0

/-- The length of what may follow the point of a number: digits and an exponent. -/
def fraction? (cs : List Char) : Option Nat := do
  let n ← digits? Char.isDigit false cs
  let m ← exponent? (cs.drop n)
  return n + m

/-- The length of digits in another base and a mark for big integers. -/
def based? (digit : Char → Bool) (cs : List Char) : Option Nat := do
  let n ← digits? digit false cs
  if n = 0 then none
  else return if (cs.drop n).head? == some 'n' then n + 1 else n

/-- The length of what may follow the leading digits of a decimal number. -/
def decimalTail? (cs : List Char) : Option Nat :=
  match cs with
  | '.' :: after => (fraction? after).map (1 + ·)
  | 'n' :: _ => some 1
  | _ => exponent? cs

/-- The length of a number, without a look at what follows. -/
def numberBody? (cs : List Char) : Option Nat :=
  match cs with
  | '.' :: after => (fraction? after).map (1 + ·)
  | '0' :: c :: after =>
    if c == 'x' || c == 'X' then
      (based? (fun d => (Escape.hexDigit? d).isSome) after).map (2 + ·)
    else if c == 'o' || c == 'O' then
      (based? (fun d => '0' ≤ d && d ≤ '7') after).map (2 + ·)
    else if c == 'b' || c == 'B' then
      (based? (fun d => d == '0' || d == '1') after).map (2 + ·)
    else if c.isDigit then
      let old := (c :: after).takeWhile Char.isDigit
      let tail := (c :: after).drop old.length
      if old.all (fun d => '0' ≤ d && d ≤ '7') then some (1 + old.length)
      else
        match tail with
        | '.' :: more => (fraction? more).map (2 + old.length + ·)
        | _ => (exponent? tail).map (1 + old.length + ·)
    else (decimalTail? (c :: after)).map (1 + ·)
  | _ => do
    let n ← digits? Char.isDigit false cs
    let m ← decimalTail? (cs.drop n)
    return n + m

/-- The length of a number. No letter or digit may follow it directly. -/
def number? (cs : List Char) : Option Nat :=
  (numberBody? cs).bind fun n =>
    if (cs.drop n).head?.any (fun c => c.isDigit || Letter.isStart c) then none else some n

end Literal

end ClientBoundary
