import ClientBoundary.Script.Punct

/-!
# Tokens

A token remembers where it **starts**, whether a line ends before it, and the text from its start
on (`source`) and behind it (`rest`), so that a grammar rule can read the same place again under
another rule: `/` as the start of a pattern, `}` as the continuation of a template, and so on.
-/

namespace ClientBoundary

/-- What a token is. -/
inductive TokenKind where
  /-- the end of the text -/
  | eof
  /-- an identifier or a keyword, with its escapes decoded -/
  | word (text : String) (escaped : Bool)
  /-- a name behind `#` -/
  | privateName (text : String)
  /-- a punctuator -/
  | punct (mark : Punct)
  /-- a string literal, decoded -/
  | string (value : String)
  /-- a number -/
  | number
  /-- a template up to its end (`closed`) or up to its first hole; `valid` unless an escape in it
  has no meaning -/
  | template (closed : Bool) (valid : Bool)
  /-- a text that is no token -/
  | bad
deriving DecidableEq, Inhabited

/-- A token with its place. -/
structure Token where
  /-- what it is -/
  kind : TokenKind
  /-- characters before it -/
  start : Nat
  /-- characters before its end -/
  stop : Nat
  /-- a line ends between the token before and this one -/
  fresh : Bool
  /-- the text from the token on -/
  source : List Char
  /-- the text behind the token -/
  rest : List Char
deriving Inhabited

namespace Token

/-- Whether the token is this punctuator. -/
def isPunct (t : Token) (p : Punct) : Bool :=
  match t.kind with
  | .punct q => q == p
  | _ => false

/-- Whether the token is one of these punctuators. -/
def isAnyPunct (t : Token) (ps : List Punct) : Bool :=
  match t.kind with
  | .punct q => ps.contains q
  | _ => false

/-- The text of a word. -/
def word? (t : Token) : Option String :=
  match t.kind with
  | .word text _ => some text
  | _ => none

/-- Whether the token is this word. -/
def isWord (t : Token) (w : String) : Bool := t.word? == some w

/-- Whether the token is one of these words. -/
def isAnyWord (t : Token) (ws : List String) : Bool :=
  match t.word? with
  | some w => ws.contains w
  | none => false

/-- Whether the token is a string literal. -/
def isString (t : Token) : Bool :=
  match t.kind with
  | .string _ => true
  | _ => false

/-- Whether the token is a number. -/
def isNumber (t : Token) : Bool := t.kind == .number

/-- Whether the token starts a template. -/
def isTemplate (t : Token) : Bool :=
  match t.kind with
  | .template _ _ => true
  | _ => false

/-- Whether the token is a name behind `#`. -/
def isPrivate (t : Token) : Bool :=
  match t.kind with
  | .privateName _ => true
  | _ => false

/-- The same place with the first `n` characters read as `kind`. -/
def reread (t : Token) (kind : TokenKind) (n : Nat) : Token :=
  { t with kind, stop := t.start + n, rest := t.source.drop n }

end Token

end ClientBoundary
