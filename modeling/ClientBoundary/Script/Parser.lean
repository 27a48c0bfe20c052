import ClientBoundary.Script.Tree
import ClientBoundary.Script.Lexer.Scan

/-!
# Parsers

A parser reads tokens under a **setting** (what the surrounding rules allow) and changes a
**state** (the current token and what has been noticed so far). It moves forward only, which its type
says (`Reading`). It fails where no reading is left;
where a text is wrong but can be read on, the state only remembers it (`flag`). The difference
matters to `attempt`, which goes back after a failure and keeps a reading that was merely flagged.

Rules of a grammar call each other in circles. They do so through **goals**: a rule is written
against a function `Rules` that serves every goal, and one definition at the end ties the circle
with a bound on its depth.
-/

namespace ClientBoundary

/-- What the surrounding rules allow. -/
structure Setting where
  /-- how the text is read -/
  dialect : Dialect
  /-- more than the number of tokens, so that no loop is cut short -/
  bound : Nat
  /-- `in` is an operator -/
  allowIn : Bool := true
  /-- `yield` is an operator -/
  yields : Bool := false
  /-- `await` is an operator -/
  awaits : Bool := false
  /-- `return` is allowed -/
  returns : Bool := false
  /-- an expression behind `@` -/
  decorates : Bool := false
  /-- declarations without bodies -/
  ambient : Bool := false
  /-- `extends` does not start a conditional type -/
  noConditional : Bool := false

/-- How the current token is replaced: by one behind it, or by another reading of its place. -/
inductive Move where
  /-- the next token -/
  | next
  /-- the longest operator that starts with `>` -/
  | widen
  /-- `<` alone -/
  | narrow
  /-- a slash as the start of a pattern -/
  | pattern
  /-- a closing brace as the continuation of a template -/
  | templateTail
  /-- the token behind the name of an element -/
  | afterName
  /-- the value behind the `=` of an attribute -/
  | attributeValue
  /-- what stands between tags and holes -/
  | child
deriving DecidableEq

namespace Move

/-- The token that a move leads to. -/
def target (dialect : Dialect) : Move → Token → Token
  | next => Lexer.next dialect
  | widen => Lexer.widen
  | narrow => Lexer.narrow
  | pattern => Lexer.pattern
  | templateTail => Lexer.templateTail
  | afterName => Lexer.afterName dialect
  | attributeValue => Lexer.attributeValue dialect
  | child => Lexer.child

theorem sound_target (dialect : Dialect) (m : Move) {t : Token} (h : Lexer.Sound t) :
    Lexer.Sound (m.target dialect t) := by
  cases m with
  | next => exact Lexer.sound_next dialect t
  | widen => exact h.widen
  | narrow => exact h.narrow
  | pattern => exact Lexer.sound_pattern t
  | templateTail => exact Lexer.sound_templateTail t
  | afterName => exact Lexer.sound_nextFrom ..
  | attributeValue => exact Lexer.sound_attributeValue dialect t
  | child => exact Lexer.sound_child t

end Move

/-- What a parser changes. -/
structure ParseState where
  /-- the current token -/
  token : Token
  /-- the token is sound -/
  sound : Lexer.Sound token
  /-- something wrong was read -/
  faulty : Bool
  /-- members `a = 1` of objects that no pattern has taken yet, by position -/
  pending : List Nat
  /-- names exported so far -/
  exported : List String

namespace ParseState

/-- The state behind a move. A text that is no token is remembered as wrong. -/
def move (dialect : Dialect) (m : Move) (s : ParseState) : ParseState where
  token := m.target dialect s.token
  sound := m.sound_target dialect s.sound
  faulty := s.faulty || (m.target dialect s.token).kind == .bad
  pending := s.pending
  exported := s.exported

/-- **States that reading leads to.** The token changes by moves only, and what is wrong stays wrong. -/
inductive Leads : ParseState → ParseState → Prop where
  /-- nothing is read -/
  | refl (s : ParseState) : Leads s s
  /-- the token changes -/
  | move {s s' : ParseState} (dialect : Dialect) (m : Move) (h : Leads s s') : Leads s (s'.move dialect m)
  /-- something is noticed -/
  | note {s s' s'' : ParseState} (h : Leads s s') (htoken : s''.token = s'.token)
    (hfaulty : s'.faulty = true → s''.faulty = true) : Leads s s''

theorem Leads.trans {s s' s'' : ParseState} (h : Leads s s') (h' : Leads s' s'') : Leads s s'' := by
  induction h' with
  | refl => exact h
  | move dialect m _ ih => exact .move dialect m ih
  | note _ htoken hfaulty ih => exact .note ih htoken hfaulty

end ParseState

/-- What a parser answers from the state `s` on. -/
structure Reading (α : Type) (s : ParseState) where
  /-- the answer -/
  value : α
  /-- the state behind what was read -/
  next : ParseState
  /-- reading goes forward -/
  leads : s.Leads next

/-- A reader of tokens, which fails or goes forward. -/
def Parser (α : Type) := Setting → (s : ParseState) → Option (Reading α s)

namespace Parser

variable {α σ : Type}

/-- Answers without reading. -/
protected def pure (a : α) : Parser α := fun _ s => some ⟨a, s, .refl s⟩

/-- Runs `p`, and then what its answer asks for. -/
protected def bind {β : Type} (p : Parser α) (f : α → Parser β) : Parser β := fun setting s =>
  (p setting s).bind fun r =>
    (f r.value setting r.next).map fun r' => ⟨r'.value, r'.next, r.leads.trans r'.leads⟩

instance : Monad Parser where
  pure := Parser.pure
  bind := Parser.bind

instance : Alternative Parser where
  failure := fun _ _ => none
  orElse p q := fun setting s => (p setting s).or (q () setting s)

instance : MonadReaderOf Setting Parser where
  read := fun setting => Parser.pure setting setting

instance : MonadWithReaderOf Setting Parser where
  withReader f p := fun setting s => p (f setting) s

/-! ## Tokens -/

/-- The current state. -/
def state : Parser ParseState := fun _ s => some ⟨s, s, .refl s⟩

/-- The current token. -/
def token : Parser Token := return (← state).token

/-- Replaces the current token. -/
def move (m : Move) : Parser Unit := fun setting s =>
  some ⟨(), s.move setting.dialect m, .move setting.dialect m (.refl s)⟩

/-- Remembers that the text is wrong. -/
def flag : Parser Unit := fun _ s =>
  some ⟨(), { s with faulty := true }, .note (.refl s) rfl fun _ => rfl⟩

/-- Remembers that the text is wrong under a condition. -/
def flagIf (wrong : Bool) : Parser Unit := if wrong then flag else pure ()

/-- Changes what is pending. -/
def changePending (f : List Nat → List Nat) : Parser Unit := fun _ s =>
  some ⟨(), { s with pending := f s.pending }, .note (.refl s) rfl id⟩

/-- Remembers names that are exported. -/
def addExported (names : List String) : Parser Unit := fun _ s =>
  some ⟨(), { s with exported := names ++ s.exported }, .note (.refl s) rfl id⟩

/-- Goes to the next token; the current one may be a keyword with escapes. -/
def pass : Parser Unit := move .next

/-- Goes to the next token; a keyword is not written with escapes. -/
def advance : Parser Unit := do
  match (← token).kind with
  | .word text true => flagIf (Word.isKeyword text)
  | _ => pure ()
  pass

/-- The token after the current one. -/
def peek : Parser Token := return Lexer.next (← read).dialect (← token)

/-- Whether the dialect has types. -/
def typed : Parser Bool := return (← read).dialect.typed

/-- Whether the current token is a punctuator. -/
def isAt (p : Punct) : Parser Bool := return (← token).isPunct p

/-- Whether the current token is one of some punctuators. -/
def isAtAny (ps : List Punct) : Parser Bool := return (← token).isAnyPunct ps

/-- Whether the current token is a word. -/
def isAtWord (w : String) : Parser Bool := return (← token).isWord w

/-- Whether a line ends before the current token. -/
def isFresh : Parser Bool := return (← token).fresh

/-- Passes a punctuator if it is there. -/
def eat (p : Punct) : Parser Bool := do
  if ← isAt p then advance; return true else return false

/-- Passes a word if it is there. -/
def eatWord (w : String) : Parser Bool := do
  if ← isAtWord w then advance; return true else return false

/-- Passes a punctuator that has to be there. -/
def expect (p : Punct) : Parser Unit := do
  if ← isAt p then advance else failure

/-- Passes a word that has to be there. -/
def expectWord (w : String) : Parser Unit := do
  if ← isAtWord w then advance else failure

/-- The end of a statement: a semicolon, or a place where one may be left out. -/
def endStatement : Parser Unit := do
  let t ← token
  if t.isPunct .semicolon then advance
  else if t.isPunct .braceClose || t.kind == .eof || t.fresh then pure ()
  else failure

/-- Whether a statement may end here. -/
def mayEnd : Parser Bool := do
  let t ← token
  return t.isPunct .semicolon || t.isPunct .braceClose || t.kind == .eof || t.fresh

/-! ## Looking ahead -/

/-- The answer of `p` without its effects, or another one if it fails. -/
def glance (otherwise : α) (p : Parser α) : Parser α := fun setting s =>
  some ⟨((p setting s).map (·.value)).getD otherwise, s, .refl s⟩

/-- Whether `p` says yes, without its effects; a failure counts as no. -/
def look (p : Parser Bool) : Parser Bool := glance false p

/-- Runs `p`, or goes back if it fails. -/
def attempt (p : Parser α) : Parser (Option α) := fun setting s =>
  match p setting s with
  | some r => some ⟨some r.value, r.next, r.leads⟩
  | none => some ⟨none, s, .refl s⟩

/-! ## Repetition -/

/-- Repeats `body` on a running value until it answers a result, at most `n` times. -/
def loopAtMost (body : σ → Parser (σ ⊕ α)) : Nat → σ → Parser α
  | 0, _ => failure
  | n + 1, s => do
    match ← body s with
    | .inl s => loopAtMost body n s
    | .inr a => pure a

/-- Repeats `body` on a running value until it answers a result. -/
def loop (start : σ) (body : σ → Parser (σ ⊕ α)) : Parser α := do
  loopAtMost body (← read).bound start

/-- Items up to `close`, which is not passed, with commas between them; and whether a comma stands
at the end. -/
def commaList (close : Punct) (item : Parser α) : Parser (List α × Bool) := do
  if ← isAt close then return ([], false)
  let first ← item
  loop [first] fun done => do
    if ← isAt close then return .inr (done.reverse, false)
    expect .comma
    if ← isAt close then return .inr (done.reverse, true)
    return .inl ((← item) :: done)

/-- Items up to `close`, which is not passed. -/
def itemsUntil (close : Punct) (item : Parser α) : Parser (List α) :=
  loop [] fun done => do
    if ← isAt close then return .inr done.reverse
    return .inl ((← item) :: done)

/-! ## Settings -/

/-- Runs `p` where `in` is an operator. -/
def withIn (p : Parser α) : Parser α := withReader (fun s => { s with allowIn := true }) p

/-- Runs `p` between brackets, where the surroundings of an expression do not matter. -/
def enclosed (p : Parser α) : Parser α :=
  withReader (fun s => { s with allowIn := true, decorates := false }) p

/-- Runs `p` where `in` is no operator. -/
def withoutIn (p : Parser α) : Parser α := withReader (fun s => { s with allowIn := false }) p

/-! ## Names -/

/-- Whether a token may name a variable that is used here. -/
def namesValue (s : Setting) (t : Token) : Bool :=
  match t.word? with
  | some "await" => !s.awaits
  | some "yield" => !s.yields
  | some w => !Word.isReserved w
  | none => false

/-- Whether a token may stand where a variable is declared. -/
def namesBinding (t : Token) : Bool :=
  match t.word? with
  | some w => w == "await" || w == "yield" || !Word.isReserved w
  | none => false

/-- A word of any kind. -/
def anyWord : Parser String := do
  match (← token).word? with
  | some w => pass; return w
  | none => failure

/-- The name of a variable that is declared. -/
def bindingName : Parser String := do
  let t ← token
  if namesBinding t then
    let s ← read
    flagIf (t.isWord "await" && s.awaits)
    flagIf (t.isWord "yield" && s.yields)
    anyWord
  else failure

end Parser

/-! ## Goals -/

/-- What a declaration binds. -/
structure Binding where
  /-- the names, from left to right -/
  names : List String
  /-- the expressions in the pattern -/
  parts : List Expr
  /-- a single name rather than a pattern -/
  simple : Bool

/-- Where a statement stands. -/
inductive Place where
  /-- in a list of statements -/
  | listed
  /-- alone, as the body of another statement -/
  | alone
deriving DecidableEq

/-- What rules ask each other for, indexed by what a rule answers. -/
inductive Goal : Type → Type 1 where
  /-- expressions with commas between them -/
  | expr : Goal Expr
  /-- an expression without commas; `returnTypes` allows an arrow function to declare what it
  returns -/
  | assign (returnTypes : Bool) : Goal Expr
  /-- an expression of operators that bind tighter than `level` -/
  | binary (level : Nat) : Goal Expr
  /-- an operand -/
  | unary : Goal Expr
  /-- an operand that does not start with `++` or `--` -/
  | simpleUnary : Goal Expr
  /-- a primary expression with its members and calls -/
  | access : Goal Expr
  /-- a primary expression -/
  | primary : Goal Expr
  /-- an object in braces -/
  | object : Goal Expr
  /-- an element or fragment; behind an `inner` one, more children of its parent follow -/
  | element (inner : Bool) : Goal Expr
  /-- a class behind its keyword -/
  | classTail : Goal Expr
  /-- what a declaration binds -/
  | pattern : Goal Binding
  /-- a type -/
  | type : Goal Unit
  /-- a type with its operators -/
  | typeOperator : Goal Unit
  /-- what a function returns, or what its answer says about an argument -/
  | returnType : Goal Unit
  /-- a statement -/
  | statement (place : Place) : Goal Stmt

/-- A parser for every goal. -/
structure Rules where
  /-- serves a goal -/
  ask : ∀ {α : Type}, Goal α → Parser α

end ClientBoundary
