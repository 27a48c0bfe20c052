/-!
# Gaps

Blanks, line ends and comments stand between tokens. A gap is measured in characters; what matters
beside its length is whether a **line ends** in it. Old scripts know two more line comments:
`<!--` anywhere, and `-->` where nothing but gap stands before it on its line.
-/

namespace ClientBoundary

namespace Gap

/-- Characters that end a line. -/
def isLineEnd (c : Char) : Bool :=
  c == '\n' || c == '\r' || c == '\u2028' || c == '\u2029'

/-- Blank characters that do not end a line. -/
def isBlank (c : Char) : Bool :=
  c == ' ' || c == '\t' || c == '\x0b' || c == '\x0c' ||
    (128 ≤ c.toNat &&
      (c == '\u00a0' || c == '\ufeff' || c == '\u0085' || c == '\u1680' || c == '\u180e' ||
        (0x2000 ≤ c.toNat && c.toNat ≤ 0x200b) || c == '\u202f' || c == '\u205f' ||
        c == '\u3000'))

/-- Where in a gap a character stands. -/
inductive Place where
  /-- outside comments -/
  | between
  /-- in a comment that ends with its line -/
  | line
  /-- in a bracketed comment -/
  | block
deriving DecidableEq

/-- Measures the gap at the start of `cs`: its length on top of `n`, and whether a line ended in it
or `fresh` was set before. A bracketed comment that is not closed has no measure. `skip` characters
are known to belong to the gap already. -/
def measure (script : Bool) : (skip : Nat) → Place → (fresh : Bool) → (n : Nat) → List Char →
    Option (Nat × Bool)
  | _, .between, fresh, n, [] => some (n, fresh)
  | _, .line, fresh, n, [] => some (n, fresh)
  | _, .block, _, _, [] => none
  | skip + 1, place, fresh, n, _ :: cs => measure script skip place fresh (n + 1) cs
  | 0, .between, fresh, n, c :: cs =>
    if isBlank c then measure script 0 .between fresh (n + 1) cs
    else if isLineEnd c then measure script 0 .between true (n + 1) cs
    else if c == '/' && cs.head? == some '/' then measure script 1 .line fresh (n + 1) cs
    else if c == '/' && cs.head? == some '*' then measure script 1 .block fresh (n + 1) cs
    else if script && c == '<' && ['!', '-', '-'].isPrefixOf cs then
      measure script 3 .line fresh (n + 1) cs
    else if script && fresh && c == '-' && ['-', '>'].isPrefixOf cs then
      measure script 2 .line fresh (n + 1) cs
    else some (n, fresh)
  | 0, .line, fresh, n, c :: cs =>
    if isLineEnd c then measure script 0 .between true (n + 1) cs
    else measure script 0 .line fresh (n + 1) cs
  | 0, .block, fresh, n, c :: cs =>
    if c == '*' && cs.head? == some '/' then measure script 1 .between fresh (n + 1) cs
    else measure script 0 .block (fresh || isLineEnd c) (n + 1) cs

end Gap

end ClientBoundary
