import ClientBoundary.Text.Split

/-!
# Bytes and the texts they show

A name on a disk is made of bytes, and nothing makes them a text. `Bytes.pieces` reads them from left
to right: a **piece** is a character, or **stray** where no character starts. Both readings of a name
come from its pieces:

* `text?` is the text that the bytes spell, where no piece is stray;
* `shown` is what a reader sees, with a replacement character for each stray piece. Different bytes may
  be shown alike.
-/

namespace ClientBoundary

/-- Bytes in order. -/
abbrev Bytes := List UInt8

namespace Bytes

/-- The bytes that spell characters. -/
def encode (cs : List Char) : Bytes := cs.flatMap String.utf8EncodeChar

/-- The bytes that spell a text. -/
def ofText (s : String) : Bytes := encode s.toList

instance : Coe String Bytes := ⟨ofText⟩

/-- The slash as a byte. -/
@[match_pattern] abbrev slash : UInt8 := 47

/-- The dot as a byte. -/
@[match_pattern] abbrev dot : UInt8 := 46

/-! ## Pieces -/

/-- The character that bytes start with. -/
def char? (bs : Bytes) : Option Char := (bs.take 4).toByteArray.utf8DecodeChar? 0

/-- Whether a byte goes on with a character. -/
def isTail (b : UInt8) : Bool := 0x80 ≤ b && b ≤ 0xBF

/-- Whether some character starts with two bytes. -/
def opens (a b : UInt8) : Bool :=
  0xC2 ≤ a && a ≤ 0xF4 && isTail b && (a != 0xE0 || 0xA0 ≤ b) && (a != 0xED || b ≤ 0x9F) &&
    (a != 0xF0 || 0x90 ≤ b) && (a != 0xF4 || b ≤ 0x8F)

/-- How many bytes are stray together: as many as some character starts with, and at least one. -/
def strayLength : Bytes → Nat
  | a :: b :: rest =>
    if !opens a b then 1
    else
      match rest with
      | c :: _ => if 0xF0 ≤ a && isTail c then 3 else 2
      | [] => 2
  | _ => 1

/-- The pieces behind the first `skip` bytes; a stray one is `none`. -/
def piecesFrom : (skip : Nat) → Bytes → List (Option Char)
  | _, [] => []
  | skip + 1, _ :: rest => piecesFrom skip rest
  | 0, b :: rest =>
    match char? (b :: rest) with
    | some c => some c :: piecesFrom (c.utf8Size - 1) rest
    | none => none :: piecesFrom (strayLength (b :: rest) - 1) rest

/-- The pieces of bytes; a stray one is `none`. -/
def pieces (bs : Bytes) : List (Option Char) := piecesFrom 0 bs

/-! ## Texts -/

/-- What is shown for a stray piece. -/
def replacement : Char := '\uFFFD'

/-- What bytes show. -/
def shown (bs : Bytes) : String := String.ofList (bs.pieces.map (·.getD replacement))

/-- Whether bytes spell a text. -/
def isText (bs : Bytes) : Bool := bs.pieces.all (·.isSome)

/-- The text that bytes spell. -/
def text? (bs : Bytes) : Option String := if bs.isText then some bs.shown else none

end Bytes

end ClientBoundary
