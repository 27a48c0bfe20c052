import ClientBoundary.Script.Grammar.ModuleItem

/-!
# Statements

Statements by their first word. A statement that is the body of another one (`Place.alone`) is no
lexical declaration.
-/

namespace ClientBoundary

namespace Grammar

open ClientBoundary.Parser

variable (rules : Rules)

/-! ## Parts -/

/-- A statement that is the body of another one. -/
def body : Parser Stmt := rules.ask (.statement .alone)

/-- An expression in parentheses. -/
def condition : Parser Expr := do
  expect .parenOpen
  let e ← enclosed (rules.ask .expr)
  expect .parenClose
  return e

/-- An expression with the end of its statement. -/
def expressionEnd (e : Expr) : Parser Stmt := do
  endStatement
  return .expr e

/-- An expression, or a label with the statement it names. -/
def expressionOrLabel : Parser Stmt := do
  let e ← rules.ask .expr
  if e matches .name _ then
    if ← eat .colon then return .compound [] [← body rules]
  expressionEnd e

/-- A name that may follow `break` or `continue`. -/
def jump : Parser Stmt := do
  advance
  if !(← mayEnd) then discard bindingName
  endStatement
  return .compound [] []

/-! ## Loops -/

/-- The rest of `for (init; test; step)`, from the first semicolon on. -/
def countedTail (init : List Expr) (inits : List Stmt) : Parser Stmt := do
  expect .semicolon
  let test ← if ← isAt .semicolon then pure [] else pure [← rules.ask .expr]
  expect .semicolon
  let step ← if ← isAt .parenClose then pure [] else pure [← rules.ask .expr]
  expect .parenClose
  let stmt ← body rules
  return .compound (init ++ test ++ step) (inits ++ [stmt])

/-- The rest of a loop over the keys (`in`) or elements (`of`) of something, behind that word. -/
def iteratedTail (overKeys : Bool) (init : List Expr) (inits : List Stmt) : Parser Stmt := do
  let e ← rules.ask (if overKeys then .expr else .assign true)
  expect .parenClose
  let stmt ← body rules
  return .compound (init ++ [e]) (inits ++ [stmt])

/-- The rest of a loop behind its declared variables. -/
def declaredLoop (kind : VariableKind) (isAwait : Bool) (vs : List Variable) : Parser Stmt := do
  let d := (declaredVariables vs).stmt
  if !isAwait && (← eatWord "in") then return ← withIn (iteratedTail rules true [] [d])
  if ← eatWord "of" then return ← withIn (iteratedTail rules false [] [d])
  if isAwait then failure
  checkInitialized kind vs
  withIn (countedTail rules [] [d])

/-- Variables of a loop behind their keyword. -/
def loopVariables (kind : VariableKind) (isAwait : Bool) : Parser Stmt := do
  let vs ← withoutIn (variableList rules)
  declaredLoop rules kind isAwait vs

/-- Whether `let` at the current token declares variables of a loop. -/
def atLoopLet : Parser Bool := do
  if ← isAtWord "let" then
    let next ← peek
    if next.isWord "of" then return (← look do
      advance
      advance
      return !(← isAtWord "of") && (← isAtAny [.assign, .semicolon, .colon, .comma]))
    return next.isAnyPunct [.bracketOpen, .braceOpen] || namesBinding next
  else return false

/-- A loop that starts with an expression. -/
def expressionLoop (isAwait : Bool) : Parser Stmt := do
  let first ← token
  let next ← peek
  let isAsyncOf := first.isWord "async" && next.isWord "of"
  let e ← withoutIn (rules.ask .expr)
  if !isAwait && (← isAtWord "in") then
    takeTarget true e
    advance
    return ← withIn (iteratedTail rules true [e] [])
  if ← isAtWord "of" then
    flagIf (first.isWord "let")
    flagIf (isAsyncOf && !isAwait)
    takeTarget true e
    advance
    return ← withIn (iteratedTail rules false [e] [])
  if isAwait then failure
  withIn (countedTail rules [e] [])

/-- Whether `using` declares a variable of a loop. -/
def atLoopUsing : Parser Bool := do
  if ← atUsing then
    let next ← peek
    if next.isWord "of" then return (← look do
      advance
      advance
      isAtAny [.assign, .semicolon, .colon])
    return true
  else return false

/-- A loop of any kind. -/
def forStatement : Parser Stmt := do
  advance
  let isAwait ← isAtWord "await"
  if isAwait then
    flagIf (!(← read).awaits)
    advance
  expect .parenOpen
  withReader (fun s => { s with decorates := false }) do
    if ← isAt .semicolon then
      if isAwait then failure
      return ← withIn (countedTail rules [] [])
    if ← eatWord "var" then return ← loopVariables rules .var isAwait
    if ← eatWord "const" then return ← loopVariables rules .const isAwait
    if ← atLoopLet then
      advance
      return ← loopVariables rules .let isAwait
    if ← atLoopUsing then
      advance
      return ← loopVariables rules .using isAwait
    if ← atAwaitUsing then
      advance
      advance
      return ← loopVariables rules .using isAwait
    expressionLoop rules isAwait

/-- A loop that tests behind its body. -/
def doStatement : Parser Stmt := do
  advance
  let stmt ← body rules
  expectWord "while"
  let test ← condition rules
  discard (eat .semicolon)
  return .compound [test] [stmt]

/-! ## Branches -/

/-- `if` with its branches. -/
def ifStatement : Parser Stmt := do
  advance
  let test ← condition rules
  let yes ← body rules
  if ← eatWord "else" then return .compound [test] [yes, ← body rules]
  return .compound [test] [yes]

/-- `while` or `with`. -/
def guardedStatement : Parser Stmt := do
  advance
  let test ← condition rules
  return .compound [test] [← body rules]

/-- One case of a `switch`. -/
def switchCase : Parser (List Expr × List Stmt) := do
  let tests ←
    if ← eatWord "default" then pure []
    else
      expectWord "case"
      pure [← rules.ask .expr]
  expect .colon
  let stmts ← loop [] fun done => do
    let t ← token
    if t.isPunct .braceClose || t.isAnyWord ["case", "default"] then return .inr done.reverse
    return .inl ((← rules.ask (.statement .listed)) :: done)
  return (tests, stmts)

/-- `switch` with its cases. -/
def switchStatement : Parser Stmt := do
  advance
  let value ← condition rules
  expect .braceOpen
  let cases ← itemsUntil .braceClose (switchCase rules)
  expect .braceClose
  return .compound (value :: cases.flatMap (·.1)) (cases.flatMap (·.2))

/-- What `catch` binds, if anything. -/
def catchBinding : Parser (List Expr) := do
  if ← eat .parenOpen then
    let b ← rules.ask .pattern
    typeAnnotation rules
    expect .parenClose
    return b.parts
  else return []

/-- `try` with `catch` or `finally` or both. -/
def tryStatement : Parser Stmt := do
  advance
  let tried ← block rules
  let (parts, caught, hasCatch) ←
    if ← eatWord "catch" then
      let parts ← catchBinding rules
      pure (parts, ← block rules, true)
    else pure ([], [], false)
  if ← eatWord "finally" then
    return .compound parts (tried ++ caught ++ (← block rules))
  flagIf (!hasCatch)
  return .compound parts (tried ++ caught)

/-! ## Other statements -/

/-- `return` with its value. -/
def returnStatement : Parser Stmt := do
  flagIf (!(← read).returns)
  advance
  if ← mayEnd then
    endStatement
    return .ret none
  let e ← withIn (rules.ask .expr)
  endStatement
  return .ret (some e)

/-- `throw` with its value on the same line. -/
def throwStatement : Parser Stmt := do
  advance
  flagIf (← isFresh)
  let e ← rules.ask .expr
  endStatement
  return .compound [e] []

/-- A statement that starts with `let`, which declares variables or is a variable itself. -/
def letStatement (place : Place) : Parser Stmt := do
  let next ← peek
  let s ← read
  if next.isAnyPunct Punct.assigns || isOperator s next || next.isAnyPunct [.dot, .parenOpen] then
    return ← expressionEnd (← rules.ask .expr)
  if (place = .alone && !next.isPunct .bracketOpen) || next.isPunct .semicolon then
    pass
    return ← expressionEnd (.name "let")
  advance
  flagIf (place = .alone)
  return (← variableTail rules .let).stmt

/-- A function as a statement. Alone, it is neither asynchronous nor a generator. -/
def functionStatement (place : Place) : Parser Stmt := do
  let isAsync ← isAtWord "async"
  let next ← peek
  flagIf (place = .alone && (isAsync || next.isPunct .star))
  return (← functionDeclaration rules false).stmt

/-- A class or export behind decorators. -/
def decorated (place : Place) : Parser Stmt := do
  let marks ← decorators rules
  if ← isAtWord "export" then return ← exportDeclaration rules marks
  flagIf (place = .alone)
  return (← declaration rules marks).stmt

/-- A statement that starts with another word: a declaration or an expression. -/
def otherWord (place : Place) (w : String) : Parser Stmt := do
  if w == "async" && (← atAsyncFunction) then return ← functionStatement rules place
  if ← atUsing then
    flagIf (place = .alone)
    advance
    return (← variableTail rules .using).stmt
  if ← atAwaitUsing then
    flagIf (place = .alone)
    advance
    advance
    return (← variableTail rules .using).stmt
  if (← typed) && (← look startsDeclaration) then return (← declaration rules []).stmt
  expressionOrLabel rules

/-- A statement by its first word. -/
def wordStatement (place : Place) (w : String) : Parser Stmt := do
  match w with
  | "if" => ifStatement rules
  | "for" => forStatement rules
  | "while" | "with" => guardedStatement rules
  | "do" => doStatement rules
  | "break" | "continue" => jump
  | "switch" => switchStatement rules
  | "throw" => throwStatement rules
  | "try" => tryStatement rules
  | "return" => returnStatement rules
  | "debugger" =>
    advance
    endStatement
    return .compound [] []
  | "class" =>
    flagIf (place = .alone)
    return (← classDeclaration rules []).stmt
  | "function" => functionStatement rules place
  | "export" => exportDeclaration rules []
  | "import" =>
    let next ← peek
    if next.isAnyPunct [.dot, .parenOpen] then expressionOrLabel rules else importDeclaration
  | "var" | "const" =>
    flagIf (place = .alone && w == "const")
    return (← variablesOrEnum rules).stmt
  | "let" => letStatement rules place
  | w => otherWord rules place w

/-- A statement. -/
def statement (place : Place) : Parser Stmt := do
  let t ← token
  match t.kind with
  | .word w _ => wordStatement rules place w
  | .punct .braceOpen => return .compound [] (← block rules)
  | .punct .semicolon =>
    advance
    return .compound [] []
  | .punct .atSign => decorated rules place
  | _ => expressionOrLabel rules

end Grammar

end ClientBoundary
