import ClientBoundary.Script.Grammar.Pattern

/-!
# Types

Types leave nothing in the tree; the rules here decide where a type ends and whether it is one.
-/

namespace ClientBoundary

namespace Grammar

open ClientBoundary.Parser

variable (rules : Rules)

/-! ## Type parameters and arguments -/

/-- One declared type parameter. -/
def typeParameter : Parser Unit := do
  let mods ← modifiers
  flagIf (mods.any fun m => !(["const", "in", "out"].contains m))
  discard bindingName
  if ← eatWord "extends" then rules.ask .type
  if ← eat .assign then rules.ask .type

/-- Declared type parameters, if the dialect has types and any are there. The list is not empty. -/
def typeParameters : Parser Unit := do
  if (← typed) && (← isAt .less) then
    advance
    let (ps, _) ← commaList .greater (typeParameter rules)
    flagIf ps.isEmpty
    expect .greater

/-- Reads the current token as a lone `<` if it starts with one. -/
def narrowLess : Parser Unit := move .narrow

/-- Whether the current token starts with `<`. -/
def isAtLess : Parser Bool := isAtAny [.less, .lessEq, .shiftLeft, .shiftLeftAssign]

/-- Type arguments in a type, if they are there on the same line. -/
def typeArguments : Parser Unit := do
  if !(← isFresh) && (← isAtLess) then
    narrowLess
    advance
    let (ts, _) ← commaList .greater (rules.ask .type)
    flagIf ts.isEmpty
    expect .greater

/-- A name with further names behind points. -/
def typeName : Parser Unit := do
  discard anyWord
  loop () fun _ => do
    if ← eat .dot then
      discard anyWord
      return .inl ()
    else return .inr ()

/-- A named type with its arguments. -/
def typeReference : Parser Unit := do
  typeName
  typeArguments rules

/-! ## Where a type starts -/

/-- Words that start a type although they are reserved. -/
def typeStartWords : List String :=
  ["void", "null", "this", "typeof", "new", "true", "false", "import", "function"]

/-- Punctuators that start a type. -/
def typeStartPuncts : List Punct :=
  [.braceOpen, .bracketOpen, .less, .pipe, .amp, .star, .question, .bang, .ellipsis]

/-- Whether a type starts at the current token. -/
def startsType : Parser Bool := do
  let t ← token
  match t.kind with
  | .word w _ => return typeStartWords.contains w || !Word.isReserved w
  | .string _ | .number | .template _ _ => return true
  | .punct .minus => return (← peek).isNumber
  | .punct .parenOpen => return true
  | .punct p => return typeStartPuncts.contains p
  | _ => return false

/-- Passes the start of a parameter: its modifiers and its name or pattern. -/
def skipParameterStart : Parser Bool := do
  let t ← token
  if t.isAnyWord modifierWords then discard modifiers
  let t ← token
  if namesBinding t || t.isWord "this" then
    advance
    return true
  if t.isAnyPunct [.bracketOpen, .braceOpen] then
    let before := (← state).faulty
    discard (rules.ask .pattern)
    return (← state).faulty == before
  return false

/-- Whether the parenthesis at the current token can only belong to a function type. -/
def startsFunctionType : Parser Bool := do
  advance
  if ← isAtAny [.parenClose, .ellipsis] then return true
  if ← skipParameterStart rules then
    if ← isAtAny [.colon, .comma, .question, .assign] then return true
    if ← eat .parenClose then return ← isAt .arrow
  return false

/-- Whether the current token starts a function or constructor type. -/
def atFunctionType : Parser Bool := do
  let t ← token
  if t.isPunct .less || t.isWord "new" then return true
  if t.isPunct .parenOpen then return ← look (startsFunctionType rules)
  if t.isWord "abstract" then return (← peek).isWord "new"
  return false

/-- A function or constructor type. -/
def functionType : Parser Unit := do
  discard (eatWord "abstract")
  discard (eatWord "new")
  typeParameters rules
  discard (parameters rules)
  expect .arrow
  rules.ask .returnType

/-! ## Members of object types -/

/-- The end of a member. -/
def endMember : Parser Unit := do
  if ← eat .comma then pure () else endStatement

/-- A signature: type parameters, parameters and what is returned. -/
def signature : Parser Unit := do
  typeParameters rules
  discard (parameters rules)
  if ← eat .colon then rules.ask .returnType

/-- Whether the bracket at the current token can only start an index signature. -/
def startsIndexSignature : Parser Bool := do
  advance
  let t ← token
  if t.isAnyPunct [.ellipsis, .bracketClose] then return true
  if t.isAnyWord modifierWords then
    advance
    if namesBinding (← token) then return true
  else if namesBinding t then advance
  else return false
  if ← isAtAny [.colon, .comma] then return true
  if ← eat .question then return ← isAtAny [.colon, .comma, .bracketClose]
  return false

/-- Whether an index signature starts at the current token. -/
def atIndexSignature : Parser Bool := do
  if ← isAt .bracketOpen then look startsIndexSignature else return false

/-- An index signature with one parameter and a type, without its end. -/
def indexSignature : Parser Unit := do
  expect .bracketOpen
  let (ps, trailing) ← commaList .bracketClose do
    discard anyWord
    expect .colon
    rules.ask .type
  flagIf (trailing || ps.length != 1)
  expect .bracketClose
  flagIf (!(← isAt .colon))
  typeAnnotation rules

/-- Whether the current word, which is `get` or `set`, starts an accessor. -/
def atAccessor : Parser Bool := do
  if (← token).isAnyWord ["get", "set"] then return canFollowModifier (← peek) else return false

/-- A member of an object type. -/
def typeMember : Parser Unit := do
  let t ← token
  if t.isAnyPunct [.parenOpen, .less] then
    signature rules
    endMember
    return
  if t.isWord "new" && (← peek).isAnyPunct [.parenOpen, .less] then
    advance
    signature rules
    endMember
    return
  let mods ← modifiers
  flagIf (mods.any (· != "readonly"))
  if ← atAccessor then
    advance
    discard (propertyName rules)
    signature rules
    endMember
    return
  if ← atIndexSignature then
    indexSignature rules
    endMember
    return
  discard (propertyName rules)
  discard (eat .question)
  if ← isAtAny [.parenOpen, .less] then signature rules else typeAnnotation rules
  endMember

/-- Members of an object type in braces. -/
def typeBody : Parser Unit := do
  expect .braceOpen
  discard (itemsUntil .braceClose (typeMember rules))
  expect .braceClose

/-- Whether a mapped type starts at the current token. -/
def startsMappedType : Parser Bool := do
  advance
  if ← isAtAny [.plus, .minus] then
    advance
    return ← isAtWord "readonly"
  discard (eatWord "readonly")
  if !(← eat .bracketOpen) then return false
  if (← token).word?.isNone then return false
  advance
  isAtWord "in"

/-- A mapped type. -/
def mappedType : Parser Unit := do
  expect .braceOpen
  if ← isAtAny [.plus, .minus] then
    advance
    expectWord "readonly"
  else discard (eatWord "readonly")
  expect .bracketOpen
  discard anyWord
  expectWord "in"
  rules.ask .type
  if ← eatWord "as" then rules.ask .type
  expect .bracketClose
  if ← isAtAny [.plus, .minus] then
    advance
    expect .question
  else discard (eat .question)
  typeAnnotation rules
  discard (eat .semicolon)
  expect .braceClose

/-! ## Tuples, templates and imports -/

/-- Whether a labelled element starts at the current token. -/
def startsLabelled : Parser Bool := do
  discard (eat .ellipsis)
  if (← token).word?.isNone then return false
  advance
  if ← eat .question then isAt .colon else isAt .colon

/-- An element of a tuple. -/
def tupleElement : Parser Unit := do
  if ← look startsLabelled then
    discard (eat .ellipsis)
    discard anyWord
    discard (eat .question)
    expect .colon
    rules.ask .type
  else
    discard (eat .ellipsis)
    rules.ask .type

/-- The holes of a template at the current token, each filled by `hole`. Escapes without meaning are
refused unless a tag stands before the template. -/
def templateHoles {α : Type} (isTagged : Bool) (hole : Parser α) : Parser (List α) :=
  loop [] fun done => do
    match (← token).kind with
    | .template closed valid =>
      flagIf (!valid && !isTagged)
      if closed then
        advance
        return .inr done.reverse
      else
        advance
        let a ← hole
        if ← isAt .braceClose then
          move .templateTail
          return .inl (a :: done)
        else failure
    | _ => failure

/-- The type of a member of another module. -/
def importType : Parser Unit := do
  expectWord "import"
  expect .parenOpen
  rules.ask .type
  if ← eat .comma then
    if !(← isAt .parenClose) then
      discard (rules.ask .object)
      discard (eat .comma)
  expect .parenClose
  if ← eat .dot then typeName
  typeArguments rules

/-! ## Types from the inside out -/

/-- Names of types that are built in. -/
def builtinTypes : List String :=
  ["any", "unknown", "string", "number", "bigint", "symbol", "boolean", "undefined", "never",
   "object"]

/-- What `asserts` says about an argument. -/
def assertsType : Parser Unit := do
  advance
  advance
  if (← isAtWord "is") && !(← isFresh) then
    advance
    rules.ask .type

/-- A type that starts with a word. -/
def wordType (w : String) : Parser Unit := do
  match w with
  | "void" | "null" | "true" | "false" => advance
  | "this" =>
    advance
    if (← isAtWord "is") && !(← isFresh) then
      advance
      rules.ask .type
  | "typeof" =>
    advance
    if ← isAtWord "import" then importType rules
    else
      typeName
      typeArguments rules
  | "import" => importType rules
  | "asserts" =>
    let next ← peek
    if !next.fresh && (namesBinding next || next.isWord "this") then assertsType rules
    else typeReference rules
  | _ =>
    if builtinTypes.contains w && !(← peek).isPunct .dot then advance else typeReference rules

/-- A type without operators, arrays and index types. -/
def plainType : Parser Unit := do
  let t ← token
  match t.kind with
  | .word w _ => wordType rules w
  | .string _ | .number => advance
  | .template _ _ => discard (templateHoles false (rules.ask .type))
  | .punct .minus =>
    advance
    if (← token).isNumber then advance else failure
  | .punct .braceOpen =>
    if ← look startsMappedType then mappedType rules else typeBody rules
  | .punct .bracketOpen =>
    advance
    discard (commaList .bracketClose (tupleElement rules))
    expect .bracketClose
  | .punct .parenOpen =>
    advance
    rules.ask .type
    expect .parenClose
  | .punct .question | .punct .bang =>
    advance
    if ← startsType then rules.ask .typeOperator
  | _ => failure

/-- A type with what may stand behind it: arrays, index types and marks. -/
def postfixType : Parser Unit := do
  withReader (fun s => { s with noConditional := false }) (plainType rules)
  loop () fun _ => do
    let t ← token
    if t.fresh then return .inr ()
    match t.kind with
    | .punct .bang =>
      advance
      return .inl ()
    | .punct .question =>
      if ← look (do advance; startsType) then return .inr ()
      advance
      return .inl ()
    | .punct .bracketOpen =>
      advance
      withReader (fun s => { s with noConditional := false }) do
        if ← startsType then rules.ask .type
      expect .bracketClose
      return .inl ()
    | _ => return .inr ()

/-- What a type bound by `infer` extends. Where a conditional type could go on, it is left to it. -/
def inferConstraint : Parser Unit := do
  expectWord "extends"
  withReader (fun s => { s with noConditional := true }) (rules.ask .type)
  if !(← read).noConditional && (← isAt .question) then failure

/-- A type with the operators before it. -/
def operatorType : Parser Unit := do
  let t ← token
  if t.isAnyWord ["keyof", "unique", "readonly"] then
    advance
    rules.ask .typeOperator
  else if t.isWord "infer" then
    advance
    discard bindingName
    if ← isAtWord "extends" then discard (attempt (inferConstraint rules))
  else postfixType rules

/-- Parts with `mark` between them and perhaps before the first. -/
def marked (mark : Punct) (part : Parser Unit) : Parser Unit := do
  discard (eat mark)
  part
  loop () fun _ => do
    if ← eat mark then
      part
      return .inl ()
    else return .inr ()

/-- Alternatives. -/
def unionType : Parser Unit := marked .pipe (marked .amp (operatorType rules))

/-- A type: a function type, a conditional type, or alternatives. -/
def type : Parser Unit := do
  if ← atFunctionType rules then return ← functionType rules
  unionType rules
  if !(← read).noConditional && !(← isFresh) && (← isAtWord "extends") then
    advance
    withReader (fun s => { s with noConditional := true }) (rules.ask .type)
    expect .question
    withReader (fun s => { s with noConditional := false }) (rules.ask .type)
    expect .colon
    withReader (fun s => { s with noConditional := false }) (rules.ask .type)

/-- What a function returns; `x is T` says something about an argument. -/
def returnType : Parser Unit := do
  let t ← token
  if namesBinding t then
    let next ← peek
    if next.isWord "is" && !next.fresh then
      advance
      advance
  rules.ask .type

end Grammar

end ClientBoundary
