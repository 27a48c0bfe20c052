import ClientBoundary.Script.Grammar.Operation

/-!
# Arrow functions

A parenthesis or angle bracket may start the parameters of an arrow function. A look at the next few
tokens says **no**, **yes** or **maybe**; after a maybe the parameters are read up to the arrow, and
given up if there is none.
-/

namespace ClientBoundary

namespace Grammar

open ClientBoundary.Parser

variable (rules : Rules)

/-- What a look ahead says. -/
inductive Guess where
  | no | maybe | yes
deriving DecidableEq, Inhabited

/-- Yes or no. -/
def Guess.ofBool (b : Bool) : Guess := if b then .yes else .no

/-- Behind a parenthesis and a word. -/
def guessAfterWord (second : Token) : Parser Guess := do
  let third ← token
  if second.isAnyWord modifierWords && !second.isWord "async" && namesBinding third then
    return .ofBool (!third.isWord "as")
  if !namesBinding second && !second.isWord "this" then return .no
  if third.isPunct .colon then return .yes
  if third.isPunct .question then
    advance
    return .ofBool (← isAtAny [.colon, .comma, .assign, .parenClose])
  if third.isAnyPunct [.comma, .assign, .parenClose] then return .maybe
  return .no

/-- Behind a parenthesis. -/
def guessAfterParen : Parser Guess := do
  let second ← token
  match second.kind with
  | .punct .parenClose =>
    advance
    return .ofBool (← isAtAny [.arrow, .colon, .braceOpen])
  | .punct .bracketOpen | .punct .braceOpen => return .maybe
  | .punct .ellipsis => return .yes
  | .punct .atSign => return .yes
  | _ =>
    advance
    guessAfterWord second

/-- Behind an angle bracket. Where elements exist, only a comma, a default or a constraint tells
type parameters from a tag. -/
def guessAfterLess : Parser Guess := do
  let second ← token
  if !namesBinding second && !second.isWord "const" then return .no
  if !(← read).dialect.elements then return .maybe
  discard (eatWord "const")
  advance
  let third ← token
  if third.isWord "extends" then
    advance
    return .ofBool !(← isAtAny [.assign, .greater, .slash])
  return .ofBool (third.isAnyPunct [.comma, .assign])

/-- Whether an arrow function with parenthesized parameters starts at the current token. -/
def guessArrow : Parser Guess := do
  if ← eatWord "async" then
    let t ← token
    if t.fresh || !t.isAnyPunct [.parenOpen, .less] then return .no
  if ← eat .parenOpen then return ← guessAfterParen
  if ← eat .less then return ← guessAfterLess
  return .no

/-- An arrow function up to its arrow. -/
structure ArrowHead where
  /-- `async` stands before it -/
  isAsync : Bool
  /-- the expressions in its parameters -/
  params : List Expr
  /-- it declares what it returns -/
  declares : Bool

/-- Reads an arrow function up to its arrow, which stands on the same line. -/
def arrowHead : Parser ArrowHead := do
  let isAsync ← eatWord "async"
  let inner (s : Setting) : Setting := { s with awaits := s.awaits || isAsync, decorates := false }
  let (params, declares) ← withReader inner do
    typeParameters rules
    let (params, _, _) ← parameters rules
    let declares := (← typed) && (← isAt .colon)
    returnAnnotation rules
    return (params, declares)
  flagIf (← isFresh)
  expect .arrow
  return { isAsync, params, declares }

/-- The body behind an arrow. -/
def arrowBody (isAsync returnTypes : Bool) : Parser (List Stmt) :=
  withReader (fun s => { s with awaits := isAsync, yields := false }) do
    if ← isAt .braceOpen then functionBody rules
    else return [.expr (← rules.ask (.assign returnTypes))]

/-- An arrow function whose head is certain. -/
def certainArrow : Parser Expr := do
  let head ← arrowHead rules
  return .arrow head.params (← arrowBody rules head.isAsync true)

/-- An arrow function, if one is here. In the middle of a choice a declared return type would take
the colon of the choice, so there another colon has to follow. -/
def possibleArrow (returnTypes : Bool) : Parser (Option Expr) := do
  if returnTypes then
    match ← attempt (arrowHead rules) with
    | some head => return some (.arrow head.params (← arrowBody rules head.isAsync true))
    | none => return none
  else
    attempt do
      let head ← arrowHead rules
      let body ← arrowBody rules head.isAsync false
      if head.declares && !(← isAt .colon) then failure
      return .arrow head.params body

/-- An arrow function with parenthesized parameters, if one is here. -/
def parenthesizedArrow (returnTypes : Bool) : Parser (Option Expr) := do
  let t ← token
  if t.isAnyPunct [.parenOpen, .less] || t.isWord "async" then
    match ← glance .no guessArrow with
    | .no => return none
    | .yes => return some (← certainArrow rules)
    | .maybe => possibleArrow rules returnTypes
  else return none

/-- The arrow and body behind a lone parameter. -/
def arrowAfterName (isAsync returnTypes : Bool) : Parser Expr := do
  flagIf (← isFresh)
  expect .arrow
  return .arrow [] (← arrowBody rules isAsync returnTypes)

/-- Whether `async x =>` starts at the current token. -/
def startsAsyncName : Parser Bool := do
  advance
  let t ← token
  if t.fresh || t.isPunct .arrow || !namesBinding t then return false
  advance
  let t ← token
  return !t.fresh && t.isPunct .arrow

/-- `async x => …`, if it is here. -/
def asyncNameArrow (returnTypes : Bool) : Parser (Option Expr) := do
  if (← isAtWord "async") && (← look startsAsyncName) then
    advance
    discard bindingName
    return some (← arrowAfterName rules true returnTypes)
  else return none

end Grammar

end ClientBoundary
