/-!
# Numerals

The numbers of JSON as they are written. A numeral is accepted only if it is **finite** in a binary
floating point format with 53 digits and exponents up to 1023. Its value is the product of a
significand of at most 64 bits and a power of ten, both rounded before they are multiplied.
-/

namespace ClientBoundary

namespace Numeral

/-- The digits at the start of a text. -/
def digits (cs : List Char) : List Char := cs.takeWhile Char.isDigit

/-- The number that digits denote. -/
def value (ds : List Char) : Nat := ds.foldl (fun n c => 10 * n + (c.toNat - 48)) 0

/-- A numeral in its parts: `whole.fraction` times ten to the exponent or to its opposite. -/
structure Parts where
  /-- digits before the point -/
  whole : List Char
  /-- digits behind the point -/
  fraction : List Char
  /-- the exponent is negative -/
  shrinks : Bool
  /-- digits of the exponent -/
  exponent : List Char
  /-- characters covered -/
  length : Nat

/-- The digits before the point: a zero stands alone. -/
def whole? (cs : List Char) : Option (List Char) :=
  match digits cs with
  | [] => none
  | ['0'] => some ['0']
  | '0' :: _ => none
  | ds => some ds

/-- The digits behind a point, if one is there: at least one. -/
def fraction? : List Char → Option (List Char)
  | '.' :: cs =>
    match digits cs with
    | [] => none
    | ds => some ds
  | _ => some []

/-- Sign, digits and length of an exponent, if one is there. -/
def exponent? : List Char → Option (Bool × List Char × Nat)
  | c :: cs =>
    if c == 'e' || c == 'E' then
      let signs := if cs.head? == some '+' || cs.head? == some '-' then 1 else 0
      match digits (cs.drop signs) with
      | [] => none
      | ds => some (cs.head? == some '-', ds, 1 + signs + ds.length)
    else some (false, [], 0)
  | [] => some (false, [], 0)

/-- The numeral at the start of a text. -/
def parts? (cs : List Char) : Option Parts := do
  let minus := if cs.head? == some '-' then 1 else 0
  let cs := cs.drop minus
  let whole ← whole? cs
  let cs := cs.drop whole.length
  let fraction ← fraction? cs
  let dotted := if fraction.isEmpty then 0 else 1 + fraction.length
  let (shrinks, exponent, n) ← exponent? (cs.drop dotted)
  return { whole, fraction, shrinks, exponent, length := minus + whole.length + dotted + n }

/-! ## Size -/

/-- The greatest significand. -/
def maxSignificand : Nat := Nat.pow 2 64 - 1

/-- The greatest power of ten. -/
def maxExponent : Nat := 308

/-- The least number that rounds to infinity. -/
def limit : Nat := Nat.pow 2 1024 - Nat.pow 2 970

/-- The significand with a digit behind it. -/
def push (significand : Nat) (d : Char) : Nat := 10 * significand + (d.toNat - 48)

/-- The significand of digits before the point, and how many of them did not fit in. -/
def takeWhole : (significand : Nat) → List Char → Nat × Nat
  | n, [] => (n, 0)
  | n, d :: ds =>
    if push n d ≤ maxSignificand then takeWhole (push n d) ds else (n, ds.length + 1)

/-- The significand with digits behind the point as far as they fit in, and how many that are. -/
def takeFraction : (significand : Nat) → List Char → Nat × Nat
  | n, [] => (n, 0)
  | n, d :: ds =>
    if push n d ≤ maxSignificand then
      let (n, taken) := takeFraction (push n d) ds
      (n, taken + 1)
    else (n, 0)

/-- A number to 53 binary digits; a half goes to the even neighbour. -/
def rounded (n : Nat) : Nat :=
  let unit := Nat.pow 2 (n.log2 - 52)
  let q := n / unit
  let r := 2 * (n % unit)
  if unit < r || (r == unit && q % 2 == 1) then (q + 1) * unit else q * unit

/-- Whether a numeral is finite. -/
def isFinite (p : Parts) : Bool :=
  let (n, dropped) := takeWhole 0 p.whole
  let (n, taken) := takeFraction n p.fraction
  let exponent := value p.exponent
  let up := dropped + (if p.shrinks then 0 else exponent)
  let down := taken + (if p.shrinks then exponent else 0)
  n == 0 || up ≤ down ||
    (up - down ≤ maxExponent && rounded n * rounded (Nat.pow 10 (up - down)) < limit)

/-- The length of the numeral at the start of a text, if it is one and finite. -/
def length? (cs : List Char) : Option Nat := do
  let p ← parts? cs
  if isFinite p then some p.length else none

end Numeral

end ClientBoundary
