import ClientBoundary.Script.Grammar.Types

/-!
# Functions

What follows the name of a function: parameters, what it returns, and its body. In typed dialects a
body may be left out.
-/

namespace ClientBoundary

namespace Grammar

open ClientBoundary.Parser

variable (rules : Rules)

/-- Statements in braces. -/
def block : Parser (List Stmt) := do
  expect .braceOpen
  let body ← itemsUntil .braceClose (rules.ask (.statement .listed))
  expect .braceClose
  return body

/-- The body of a function. -/
def functionBody : Parser (List Stmt) :=
  withReader (fun s => { s with returns := true, decorates := false, allowIn := true })
    (block rules)

/-- How a function is called and what its body may use. -/
structure FunctionKind where
  /-- `await` is an operator in it -/
  isAsync : Bool := false
  /-- `yield` is an operator in it -/
  isGenerator : Bool := false

/-- What the parts of a function read so far say. -/
structure FunctionParts where
  /-- the function -/
  value : Expr
  /-- number of parameters -/
  arity : Nat
  /-- the last parameter takes all further arguments -/
  takesRest : Bool
  /-- there is a body -/
  hasBody : Bool

/-- A return type behind a colon. -/
def returnAnnotation : Parser Unit := do
  if (← typed) && (← isAt .colon) then
    advance
    rules.ask .returnType

/-- What follows the name of a function. A function without a body ends like a statement. -/
def functionTail (kind : FunctionKind) : Parser FunctionParts := do
  let inner (s : Setting) : Setting :=
    { s with
      awaits := kind.isAsync
      yields := kind.isGenerator
      allowIn := true
      decorates := false }
  let (params, arity, takesRest) ← withReader inner do
    typeParameters rules
    let ps ← parameters rules
    returnAnnotation rules
    return ps
  if ← isAt .braceOpen then
    let body ← withReader inner (functionBody rules)
    return ⟨.compound .functionValue params body, arity, takesRest, true⟩
  else if ← typed then
    endStatement
    return ⟨.compound .functionValue params [], arity, takesRest, false⟩
  else failure

/-- An accessor, from its parameters on: a getter takes none, a setter one that is not the rest. -/
def accessorTail (isGetter : Bool) : Parser FunctionParts := do
  let f ← functionTail rules {}
  if isGetter then flagIf (f.arity != 0) else flagIf (f.arity != 1 || f.takesRest)
  return f

/-- A function from its keyword on, in a place where it needs a name (`needsName`) or may have one.
Answers the name and the function. -/
def functionFromKeyword (isAsync needsName isValue : Bool) :
    Parser (Option String × FunctionParts) := do
  expectWord "function"
  let isGenerator ← eat .star
  let t ← token
  let name ←
    if namesBinding t then
      let inner (s : Setting) : Setting :=
        if isValue then { s with awaits := isAsync, yields := isGenerator } else s
      some <$> withReader inner bindingName
    else pure none
  flagIf (needsName && name.isNone)
  let f ← functionTail rules { isAsync, isGenerator }
  return (name, f)

/-- Whether `async function` starts at the current token. -/
def atAsyncFunction : Parser Bool := do
  if ← isAtWord "async" then
    let next ← peek
    return next.isWord "function" && !next.fresh
  else return false

end Grammar

end ClientBoundary
