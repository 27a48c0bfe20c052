import ClientBoundary.Script.Grammar.Class

/-!
# Primary expressions

Arrays, objects, templates, parentheses, functions, classes and the forms of `import`.
-/

namespace ClientBoundary

namespace Grammar

open ClientBoundary.Parser

variable (rules : Rules)

/-- An expression, or one that is spread. -/
def spreadable : Parser Item := do
  if ← eat .ellipsis then return .spread (← rules.ask (.assign true))
  return .value (← rules.ask (.assign true))

/-- Arguments in parentheses. -/
def callArguments : Parser (List Item) := do
  expect .parenOpen
  let (items, _) ← enclosed (commaList .parenClose (spreadable rules))
  expect .parenClose
  return items

/-- An array. -/
def arrayLiteral : Parser Expr := do
  expect .bracketOpen
  let item : Parser Item := do
    if ← isAt .comma then return .hole else spreadable rules
  let (items, trailing) ← enclosed (commaList .bracketClose item)
  expect .bracketClose
  return .array items trailing

/-- A member of an object. -/
def objectMember : Parser Member := do
  if ← eat .ellipsis then return .spread (← rules.ask (.assign true))
  let isAsync ← if ← isAtWord "async" then isModifier else pure false
  if isAsync then advance
  if ← atAccessor then
    let isGetter ← isAtWord "get"
    flagIf isAsync
    advance
    let key ← propertyName rules
    let f ← accessorTail rules isGetter
    flagIf (!f.hasBody)
    return .property key.computed f.value
  let isGenerator ← eat .star
  let key ← propertyName rules
  if isGenerator || (← isAtAny [.parenOpen, .less]) then
    let f ← functionTail rules { isAsync, isGenerator }
    flagIf (!f.hasBody)
    return .property key.computed f.value
  flagIf isAsync
  if namesValue (← read) key.token && !(← isAt .colon) then
    let default ← initializer rules
    if !default.isEmpty then
      changePending (key.token.start :: ·)
    return .shorthand key.token.start (key.token.word?.getD "") default
  expect .colon
  return .property key.computed (← rules.ask (.assign true))

/-- An object. -/
def objectLiteral : Parser Expr := do
  expect .braceOpen
  let (members, trailing) ← enclosed (commaList .braceClose (objectMember rules))
  expect .braceClose
  return .object members trailing

/-- An expression in parentheses, at least one and without a comma at the end. -/
def parenthesized : Parser Expr := do
  expect .parenOpen
  let (es, trailing) ← enclosed (commaList .parenClose (rules.ask (.assign true)))
  expect .parenClose
  if trailing then failure
  match es with
  | [] => failure
  | [e] => return .paren e
  | es => return .paren (.compound .sequence es [])

/-- `import(…)`, from the parenthesis on: a source and perhaps options. -/
def importArguments (start : Nat) : Parser Expr := do
  expect .parenOpen
  let source ← enclosed (rules.ask (.assign true))
  let hasMore ← eat .comma
  let options ←
    if hasMore && !(← isAt .parenClose) then
      let e ← enclosed (rules.ask (.assign true))
      discard (eat .comma)
      pure [e]
    else pure []
  expect .parenClose
  return .importCall start source options

/-- The forms of `import` that are expressions. -/
def importForm : Parser Expr := do
  let start := (← token).start
  expectWord "import"
  if ← eat .dot then
    if ← eatWord "meta" then return .compound .metaProperty [] []
    if (← eatWord "source") || (← eatWord "defer") then return ← importArguments rules start
    failure
  importArguments rules start

/-- A template. -/
def templateLiteral : Parser Expr := do
  return .compound .template (← templateHoles false (enclosed (rules.ask .expr))) []

/-- A function as a value. -/
def functionValue : Parser Expr := do
  let isAsync ← eatWord "async"
  return (← functionFromKeyword rules isAsync false true).2.value

/-- A class as a value, perhaps with decorators. -/
def classValue : Parser Expr := do
  let marks ← decorators rules
  expectWord "class"
  let e ← rules.ask .classTail
  return if marks.isEmpty then e else .compound .classValue (marks ++ [e]) []

/-- A variable. -/
def variableName : Parser Expr := do
  let t ← token
  if namesValue (← read) t then return .name (← anyWord) else failure

/-- An expression that starts with a word. -/
def wordPrimary (w : String) : Parser Expr := do
  match w with
  | "this" | "null" | "true" | "false" =>
    advance
    return .literal
  | "super" =>
    advance
    flagIf (!(← isAtAny [.dot, .bracketOpen, .parenOpen]))
    return .literal
  | "function" => functionValue rules
  | "class" => classValue rules
  | "import" => importForm rules
  | "async" => if ← atAsyncFunction then functionValue rules else variableName
  | _ => variableName

/-- `new` with what it makes; the callee has no chain in it and is no `import()`. -/
def construct (members : Expr → Parser Expr) : Parser Expr := do
  expectWord "new"
  if ← eat .dot then
    expectWord "target"
    return .compound .metaProperty [] []
  let callee ← members (← rules.ask .primary)
  flagIf (← isAt .optional)
  flagIf (callee matches .importCall _ _ _)
  let args ← if ← isAt .parenOpen then callArguments rules else pure []
  let parts := args.filterMap fun
    | .value e | .spread e => some e
    | .hole => none
  return .compound .construct (callee :: parts) []

/-- A primary expression. -/
def primary (members : Expr → Parser Expr) : Parser Expr := do
  let t ← token
  match t.kind with
  | .word "new" _ => construct rules members
  | .word w _ => wordPrimary rules w
  | .string value =>
    advance
    return .string value
  | .number =>
    advance
    return .literal
  | .template _ _ => templateLiteral rules
  | .punct .bracketOpen => arrayLiteral rules
  | .punct .braceOpen => rules.ask .object
  | .punct .parenOpen => parenthesized rules
  | .punct .slash | .punct .slashAssign =>
    move .pattern
    advance
    return .literal
  | .punct .atSign => classValue rules
  | _ => failure

end Grammar

end ClientBoundary
