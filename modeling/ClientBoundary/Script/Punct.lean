/-!
# Punctuators

The punctuators of the language. A text starts with the **longest** punctuator it can, with one
exception: `>` is always read alone, so that nested type arguments close one by one, and an
expression that wants `>>` or `>=` asks for it with `Punct.widen`.
-/

namespace ClientBoundary

/-- A punctuator. -/
inductive Punct where
  | braceOpen | braceClose | parenOpen | parenClose | bracketOpen | bracketClose
  | semicolon | comma | dot | ellipsis | colon | question | optional | arrow | atSign
  | less | lessEq | shiftLeft | shiftLeftAssign
  | greater | greaterEq | shiftRight | shiftRightAssign | shiftRightZero | shiftRightZeroAssign
  | assign | eq | eqStrict | bang | neq | neqStrict
  | plus | increment | plusAssign | minus | decrement | minusAssign
  | star | power | starAssign | powerAssign | slash | slashAssign | percent | percentAssign
  | amp | and | ampAssign | andAssign | pipe | or | pipeAssign | orAssign
  | caret | caretAssign | tilde | coalesce | coalesceAssign
deriving DecidableEq, Inhabited

namespace Punct

/-- How a punctuator is written. -/
def text : Punct → String
  | braceOpen => "\x7b" | braceClose => "\x7d" | parenOpen => "(" | parenClose => ")"
  | bracketOpen => "[" | bracketClose => "]" | semicolon => ";" | comma => "," | dot => "."
  | ellipsis => "..." | colon => ":" | question => "?" | optional => "?." | arrow => "=>"
  | atSign => "@" | less => "<" | lessEq => "<=" | shiftLeft => "<<" | shiftLeftAssign => "<<="
  | greater => ">" | greaterEq => ">=" | shiftRight => ">>" | shiftRightAssign => ">>="
  | shiftRightZero => ">>>" | shiftRightZeroAssign => ">>>=" | assign => "=" | eq => "=="
  | eqStrict => "===" | bang => "!" | neq => "!=" | neqStrict => "!==" | plus => "+"
  | increment => "++" | plusAssign => "+=" | minus => "-" | decrement => "--"
  | minusAssign => "-=" | star => "*" | power => "**" | starAssign => "*=" | powerAssign => "**="
  | slash => "/" | slashAssign => "/=" | percent => "%" | percentAssign => "%=" | amp => "&"
  | and => "&&" | ampAssign => "&=" | andAssign => "&&=" | pipe => "|" | or => "||"
  | pipeAssign => "|=" | orAssign => "||=" | caret => "^" | caretAssign => "^=" | tilde => "~"
  | coalesce => "??" | coalesceAssign => "??="

/-- The punctuators a text may start with, longer ones first. -/
def leading : List Punct :=
  [ellipsis, shiftLeftAssign, eqStrict, neqStrict, powerAssign, andAssign, orAssign,
   coalesceAssign, optional, arrow, lessEq, shiftLeft, eq, neq, increment, plusAssign, decrement,
   minusAssign, power, starAssign, slashAssign, percentAssign, and, ampAssign, or, pipeAssign,
   caretAssign, coalesce, braceOpen, braceClose, parenOpen, parenClose, bracketOpen, bracketClose,
   semicolon, comma, dot, colon, question, atSign, less, greater, assign, bang, plus, minus, star,
   slash, percent, amp, pipe, caret, tilde]

/-- The punctuators that start with `>`, longer ones first. -/
def wide : List Punct :=
  [shiftRightZeroAssign, shiftRightZero, shiftRightAssign, shiftRight, greaterEq, greater]

/-- Whether `cs` starts with the punctuator. -/
def leads (p : Punct) (cs : List Char) : Bool := p.text.toList.isPrefixOf cs

/-- The punctuator at the start of `cs`. A question mark before `.5` stands alone. -/
def ofChars? (cs : List Char) : Option Punct :=
  match leading.find? (·.leads cs) with
  | some optional =>
    match cs.drop 2 with
    | c :: _ => if c.isDigit then some question else some optional
    | [] => some optional
  | found => found

/-- The longest punctuator at the start of a text that starts with `>`. -/
def widen? (cs : List Char) : Option Punct := wide.find? (·.leads cs)

/-- Operators that assign. -/
def assigns : List Punct :=
  [assign, plusAssign, minusAssign, starAssign, slashAssign, percentAssign, powerAssign,
   shiftLeftAssign, shiftRightAssign, shiftRightZeroAssign, ampAssign, pipeAssign, caretAssign,
   andAssign, orAssign, coalesceAssign]

end Punct

end ClientBoundary
