import ClientBoundary.Script.Grammar.Primary
import ClientBoundary.Script.Grammar.Target

/-!
# Members, calls and operators

Everything between a primary expression and an assignment: members, calls and chains, operators
before and behind an operand, and operators between operands by their levels.
-/

namespace ClientBoundary

namespace Grammar

open ClientBoundary.Parser

variable (rules : Rules)

/-! ## Operators between operands -/

/-- How tight a punctuator binds its operands. -/
def punctLevel? : Punct → Option Nat
  | .coalesce => some 1
  | .or => some 2
  | .and => some 3
  | .pipe => some 4
  | .caret => some 5
  | .amp => some 6
  | .eq | .neq | .eqStrict | .neqStrict => some 7
  | .less | .greater | .lessEq | .greaterEq => some 8
  | .shiftLeft | .shiftRight | .shiftRightZero => some 9
  | .plus | .minus => some 10
  | .star | .slash | .percent => some 11
  | .power => some 12
  | _ => none

/-- How tight the operator at a token binds its operands, if it is one. -/
def level? (s : Setting) (t : Token) : Option Nat :=
  match t.kind with
  | .punct p => punctLevel? p
  | .word "instanceof" _ => some 8
  | .word "in" _ => if s.allowIn then some 8 else none
  | .word "as" _ | .word "satisfies" _ => if s.dialect.typed && !t.fresh then some 8 else none
  | _ => none

/-- Whether a token is a binary operator. -/
def isOperator (s : Setting) (t : Token) : Bool := (level? s t).isSome

/-! ## Type arguments of calls -/

/-- Words that start an expression although they are reserved. -/
def exprStartWords : List String :=
  ["this", "super", "null", "true", "false", "function", "class", "new", "import", "delete",
   "typeof", "void", "await", "yield"]

/-- Punctuators that start an expression. -/
def exprStartPuncts : List Punct :=
  [.parenOpen, .bracketOpen, .braceOpen, .slash, .slashAssign, .plus, .minus, .tilde, .bang,
   .increment, .decrement, .less, .atSign]

/-- Whether an expression may start at a token. -/
def startsExpr (s : Setting) (t : Token) : Bool :=
  match t.kind with
  | .word w _ => exprStartWords.contains w || !Word.isReserved w
  | .string _ | .number | .template _ _ | .privateName _ => true
  | .punct p => exprStartPuncts.contains p || isOperator s t
  | _ => false

/-- Whether what stands here can follow the type arguments of an expression. -/
def canFollowTypeArguments : Parser Bool := do
  let t ← token
  if t.isPunct .parenOpen || t.isTemplate then return true
  if t.isAnyPunct [.less, .greater, .plus, .minus] then return false
  let s ← read
  return t.fresh || isOperator s t || !startsExpr s t

/-- Type arguments in an expression. -/
def exprTypeArguments : Parser Unit := do
  narrowLess
  expect .less
  let (ts, _) ← commaList .greater (rules.ask .type)
  flagIf ts.isEmpty
  move .widen
  expect .greater
  if !(← canFollowTypeArguments) then failure

/-- Type arguments in an expression, if they are there. -/
def tryTypeArguments : Parser Bool := do
  if (← typed) && (← isAtAny [.less, .shiftLeft]) then
    return (← attempt (exprTypeArguments rules)).isSome
  else return false

/-! ## Members and calls -/

/-- An expression with whether a chain is open in it. -/
structure Access where
  /-- the expression -/
  value : Expr
  /-- `?.` was read -/
  chained : Bool

/-- Whether `?.` at the current token starts a member rather than a call. -/
def atOptionalMember : Parser Bool := do
  if ← isAt .optional then
    let next ← peek
    return next.word?.isSome || next.isPrivate || next.isPunct .bracketOpen || next.isTemplate
  else return false

/-- A member name behind a point. -/
def memberAfterDot (object : Expr) : Parser Expr := do
  if (← token).isPrivate then
    advance
    return .compound .privateMember [object] []
  discard anyWord
  return .member object

/-- The expression without type arguments at its end. -/
def withoutTypeArguments : Expr → Expr
  | .compound .instantiated [e] _ => e
  | e => e

/-- A template behind a tag, which may not stand in a chain. -/
def taggedTemplate (tag : Access) : Parser Access := do
  flagIf tag.chained
  let parts ← templateHoles true (enclosed (rules.ask .expr))
  return { tag with value := .compound .tagged (withoutTypeArguments tag.value :: parts) [] }

/-- One more member behind `a`, if there is one. -/
def memberStep (allowChain : Bool) (a : Access) : Parser (Option Access) := do
  let chained ← if allowChain then atOptionalMember else pure false
  if chained then advance
  let a := { a with chained := a.chained || chained }
  let isDot ← if chained then pure false else eat .dot
  let t ← token
  if isDot || (chained && (t.word?.isSome || t.isPrivate)) then
    return some { a with value := ← memberAfterDot a.value }
  if t.isPunct .bracketOpen && (chained || !(← read).decorates) then
    advance
    let key ← enclosed (rules.ask .expr)
    expect .bracketClose
    return some { a with value := .compound .index [a.value, key] [] }
  if t.isTemplate then return some (← taggedTemplate rules a)
  if chained then failure
  if (← typed) && t.isPunct .bang && !t.fresh then
    advance
    return some { a with value := .compound .asserted [a.value] [] }
  if ← tryTypeArguments rules then
    return some { a with value := .compound .instantiated [a.value] [] }
  return none

/-- All members behind `a`. -/
def members (allowChain : Bool) (a : Access) : Parser Access :=
  loop a fun a => do
    match ← memberStep rules allowChain a with
    | some a => return .inl a
    | none => return .inr a

/-- Members behind an expression, without chains. -/
def plainMembers (e : Expr) : Parser Expr := do
  return (← members rules false ⟨e, false⟩).value

/-- All members and calls behind `a`, which starts at `start`. -/
def calls (start : Nat) (a : Access) : Parser Access :=
  loop a fun a => do
    let a ← members rules true a
    let chained ← eat .optional
    let a := { a with chained := a.chained || chained }
    let hasTypes ← if chained then tryTypeArguments rules else pure false
    if chained && (← token).isTemplate then return .inl (← taggedTemplate rules a)
    if ← isAt .parenOpen then
      let args ← callArguments rules
      return .inl { a with value := .call start (withoutTypeArguments a.value) args }
    if hasTypes || chained then failure
    return .inr a

/-- A primary expression with its members and calls. -/
def access : Parser Expr := do
  let start := (← token).start
  let e ← rules.ask .primary
  let a ← calls rules start ⟨e, false⟩
  return if a.chained then .compound .chain [a.value] [] else a.value

/-! ## Operators before and behind an operand -/

/-- Refuses an expression that is no variable or member. -/
def expectPlace (e : Expr) : Parser Unit := if e.isSimpleTarget then pure () else failure

/-- Whether a token is `++` or `--`. -/
def isUpdate (t : Token) : Bool := t.isAnyPunct [.increment, .decrement]

/-- An operand with `++` or `--` before or behind it. -/
def update : Parser Expr := do
  if isUpdate (← token) then
    advance
    let e ← rules.ask .unary
    expectPlace e
    return .compound .update [e] []
  let e ← rules.ask .access
  let t ← token
  if isUpdate t && !t.fresh then
    advance
    expectPlace e
    return .compound .update [e] []
  return e

/-- Whether `await` at the current token is an operator. Where it is a name, an operand on the same
line makes it one by mistake. -/
def atAwait : Parser Bool := do
  if ← isAtWord "await" then
    if (← read).awaits then return true
    let next ← peek
    return !next.fresh && (next.word?.isSome || next.isString || next.isNumber)
  else return false

/-- `await` with its operand. -/
def awaitOperand : Parser Expr := do
  flagIf (!(← read).awaits)
  advance
  let e ← withReader (fun s => { s with awaits := true }) (rules.ask .simpleUnary)
  return .awaited e

/-- Words that are operators before an operand. -/
def unaryWords : List String := ["typeof", "void", "delete"]

/-- An operand that does not start with `++` or `--`, with the operators before it. -/
def simpleUnary : Parser Expr := do
  let t ← token
  if t.isAnyPunct [.plus, .minus, .tilde, .bang] || t.isAnyWord unaryWords then
    advance
    let e ← rules.ask .simpleUnary
    return .compound .unary [e] []
  if t.isPunct .less then
    let dialect := (← read).dialect
    if dialect.elements then return ← rules.ask (.element false)
    if !dialect.typed then failure
    advance
    rules.ask .type
    expect .greater
    let e ← rules.ask .simpleUnary
    return .compound .asserted [e] []
  if ← atAwait then return ← awaitOperand rules
  update rules

/-- An operand. -/
def unary : Parser Expr := do
  if isUpdate (← token) then update rules else simpleUnary rules

/-- `#name in object`. -/
def privateIn : Parser Expr := do
  advance
  expectWord "in"
  let e ← rules.ask .unary
  return .compound .binary [e] []

/-- The first operand of operators. -/
def firstOperand : Parser Expr := do
  if (← read).allowIn && (← token).isPrivate then privateIn rules else rules.ask .unary

/-- Whether an operand may not stand left of `**` without parentheses. -/
def bindsLooser : Expr → Bool
  | .compound .unary _ _ | .awaited _ => true
  | _ => false

/-- Whether an operand may not stand beside `??` without parentheses. -/
def isLogical : Expr → Bool
  | .compound .logical _ _ => true
  | _ => false

/-- The form of an operation. -/
def formOf (t : Token) : Form :=
  if t.isPunct .coalesce then .coalesce
  else if t.isAnyPunct [.and, .or] then .logical
  else .binary

/-- Operators that bind tighter than `level`, with `lhs` left of them. -/
def operations (level : Nat) (lhs : Expr) : Parser Expr :=
  loop lhs fun lhs => do
    move .widen
    let t ← token
    match level? (← read) t with
    | none => return .inr lhs
    | some l =>
      if l < level || (l == level && l != 12) then return .inr lhs
      advance
      if t.isAnyWord ["as", "satisfies"] then
        rules.ask .type
        return .inl (.compound .asserted [lhs] [])
      flagIf (l == 12 && bindsLooser lhs)
      let rhs ← rules.ask (.binary l)
      flagIf (t.isPunct .coalesce && (isLogical lhs || isLogical rhs))
      return .inl (.compound (formOf t) [lhs, rhs] [])

/-- Operators that bind tighter than `level` with their operands. -/
def binary (level : Nat) : Parser Expr := do
  operations rules level (← firstOperand rules)

end Grammar

end ClientBoundary
