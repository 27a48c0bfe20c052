import ClientBoundary.Script.Grammar.Arrow

/-!
# Expressions

Assignments, choices between two expressions, `yield`, and expressions with commas between them.
-/

namespace ClientBoundary

namespace Grammar

open ClientBoundary.Parser

variable (rules : Rules)

/-- Tokens behind `yield` that mean it has no operand. -/
def endsYield (t : Token) : Bool :=
  t.kind == .eof || t.isWord "in" ||
    t.isAnyPunct [.semicolon, .braceClose, .parenClose, .bracketClose, .colon, .comma]

/-- `yield` with its operand. -/
def yieldOperand : Parser Expr := do
  advance
  let t ← token
  if t.fresh then return .compound .yielded [] []
  let delegates ← eat .star
  if delegates || !endsYield (← token) then
    return .compound .yielded [← rules.ask (.assign true)] []
  return .compound .yielded [] []

/-- Makes an expression the left side of an assignment. -/
def takeTarget (isPlain : Bool) (e : Expr) : Parser Unit := do
  if isPlain then
    match e.target? with
    | some covered => changePending (·.filter (!covered.contains ·))
    | none => failure
  else if e.isSimpleTarget then pure ()
  else failure

/-- The rest of a choice, if one is here. -/
def choice (returnTypes : Bool) (test : Expr) : Parser Expr := do
  if ← eat .question then
    let yes ← withIn (rules.ask (.assign false))
    expect .colon
    let no ← rules.ask (.assign returnTypes)
    return .conditional test yes no
  else return test

/-- An expression without commas. -/
def assignment (returnTypes : Bool) : Parser Expr := do
  if (← isAtWord "yield") && (← read).yields then return ← yieldOperand rules
  if let some e ← parenthesizedArrow rules returnTypes then return e
  if let some e ← asyncNameArrow rules returnTypes then return e
  let lhs ← rules.ask (.binary 0)
  let t ← token
  if t.isPunct .arrow then
    if lhs matches .name _ then return ← arrowAfterName rules false returnTypes
  if t.isAnyPunct Punct.assigns then
    let isPlain := t.isPunct .assign
    takeTarget isPlain lhs
    advance
    return .assign isPlain lhs (← rules.ask (.assign returnTypes))
  choice rules returnTypes lhs

/-- Expressions with commas between them. -/
def expression : Parser Expr :=
  withReader (fun s => { s with decorates := false }) do
    let first ← rules.ask (.assign true)
    if ← isAt .comma then
      let es ← loop [first] fun done => do
        if ← eat .comma then return .inl ((← rules.ask (.assign true)) :: done)
        else return .inr done.reverse
      return .compound .sequence es []
    else return first

end Grammar

end ClientBoundary
