import ClientBoundary.Script.Grammar.Types

/-!
# Elements

Tags with attributes, children and expressions in braces. Between tags the text is read under its
own rules, so the token behind a bracket depends on where the bracket stands.
-/

namespace ClientBoundary

namespace Grammar

open ClientBoundary.Parser

variable (rules : Rules)

/-- A name with hyphens. -/
def hyphenated : Parser String := do
  let t ← token
  match t.word? with
  | some w =>
    move .afterName
    return w ++ String.ofList (Lexer.nameTail t)
  | none => failure

/-- The name of an element: a name, a name in a name space, or a chain of members. -/
def elementName : Parser String := do
  let first ← hyphenated
  if ← eat .colon then return first ++ ":" ++ (← hyphenated)
  loop first fun name => do
    if ← eat .dot then return .inl (name ++ "." ++ (← hyphenated)) else return .inr name

/-- Passes the last bracket of an element. -/
def closeElement (inner : Bool) : Parser Unit := do
  if ← isAt .greater then
    if inner then move .child else advance
  else failure

/-- An expression behind an opening brace, up to the closing one. An empty hole has none. -/
def holeContent : Parser (List Expr) := do
  if ← isAt .braceClose then return []
  discard (eat .ellipsis)
  let e ← enclosed (rules.ask (.assign true))
  if ← isAt .braceClose then return [e] else failure

/-- An attribute, or attributes that are spread. -/
def tagAttribute : Parser (List Expr) := do
  if ← eat .braceOpen then
    expect .ellipsis
    let e ← enclosed (rules.ask (.assign true))
    expect .braceClose
    return [e]
  discard hyphenated
  if ← eat .colon then discard hyphenated
  if !(← isAt .assign) then return []
  move .attributeValue
  let t ← token
  match t.kind with
  | .string _ =>
    advance
    return []
  | .punct .braceOpen =>
    advance
    let es ← holeContent rules
    expect .braceClose
    return es
  | .punct .less => return [← rules.ask (.element false)]
  | _ => failure

/-- Children up to the tag that closes the element `name`, which is passed but for its last
bracket. -/
def children (name : String) : Parser (List Expr) :=
  loop [] fun done => do
    let t ← token
    match t.kind with
    | .punct .less =>
      if (← peek).isPunct .slash then
        advance
        advance
        let closing ← if name == "" then pure "" else elementName
        if closing == name then return .inr done.reverse else failure
      else return .inl ((← rules.ask (.element true)) :: done)
    | .punct .braceOpen =>
      advance
      let es ← holeContent rules
      move .child
      return .inl (es.reverse ++ done)
    | .number =>
      move .child
      return .inl done
    | _ => failure

/-- The attributes of a tag. -/
def attributes : Parser (List Expr) := do
  let parts ← loop [] fun done => do
    if ← isAtAny [.slash, .greater] then return .inr done.reverse
    return .inl ((← tagAttribute rules) :: done)
  return parts.flatten

/-- An element or fragment. -/
def elementForm (inner : Bool) : Parser Expr := do
  expect .less
  if ← isAt .greater then
    move .child
    let es ← children rules ""
    closeElement inner
    return .compound .element es []
  let name ← elementName
  if ← typed then typeArguments rules
  let attrs ← attributes rules
  if ← eat .slash then
    closeElement inner
    return .compound .element attrs []
  move .child
  let es ← children rules name
  closeElement inner
  return .compound .element (attrs ++ es) []

end Grammar

end ClientBoundary
