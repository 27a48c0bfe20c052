import ClientBoundary.Script.Grammar.Declaration

/-!
# Imports and exports

Import declarations, export lists and exported declarations. In dialects without types no name is
exported twice.
-/

namespace ClientBoundary

namespace Grammar

open ClientBoundary.Parser

variable (rules : Rules)

/-! ## Sources and attributes -/

/-- A string literal. -/
def stringValue : Parser String := do
  match (← token).kind with
  | .string value =>
    advance
    return value
  | _ => failure

/-- One attribute of an import: a key and a string. Answers the key. -/
def importAttribute : Parser String := do
  let key ←
    match (← token).kind with
    | .word w _ =>
      pass
      pure w
    | .string value =>
      advance
      pure value
    | _ => failure
  expect .colon
  discard stringValue
  return key

/-- The attributes of an import, if there are any. No key stands twice. -/
def importAttributes : Parser Unit := do
  let t ← token
  if t.isWord "with" || (t.isWord "assert" && !t.fresh) then
    advance
    expect .braceOpen
    let (keys, _) ← commaList .braceClose importAttribute
    flagIf (keys.eraseDups.length != keys.length)
    expect .braceClose

/-- The source of an import or export with its attributes, up to the end of the statement. -/
def sourceTail : Parser String := do
  let source ← stringValue
  importAttributes
  endStatement
  return source

/-! ## Specifiers -/

/-- A name in a list of imports or exports: a word or a text. -/
structure ListedName where
  /-- what it says -/
  text : String
  /-- it is a text -/
  isText : Bool

/-- An entry of a list of imports or exports. -/
structure Specifier where
  /-- the first name -/
  first : ListedName
  /-- the name behind `as` -/
  second : Option ListedName
  /-- it is marked as a type -/
  typeOnly : Bool

/-- Whether the current token is a name in a list. -/
def atListedName : Parser Bool := do
  let t ← token
  return t.word?.isSome || t.isString

/-- A name in a list. -/
def listedName : Parser ListedName := do
  match (← token).kind with
  | .word w _ =>
    pass
    return ⟨w, false⟩
  | .string value =>
    advance
    return ⟨value, true⟩
  | _ => failure

/-- An entry behind a first name: perhaps `as` and a second one. -/
def specifierTail (first : ListedName) (typeOnly : Bool) : Parser Specifier := do
  if ← eatWord "as" then return ⟨first, some (← listedName), typeOnly⟩
  return ⟨first, none, typeOnly⟩

/-- An entry that starts with `type`, which is a mark or a name. -/
def typeSpecifier (first : ListedName) : Parser Specifier := do
  if ← isAtWord "as" then
    let firstAs ← listedName
    if ← isAtWord "as" then
      let secondAs ← listedName
      if ← atListedName then return ⟨firstAs, some (← listedName), true⟩
      return ⟨first, some secondAs, false⟩
    if ← atListedName then return ⟨first, some (← listedName), false⟩
    return ⟨firstAs, none, true⟩
  if ← atListedName then specifierTail (← listedName) true
  else specifierTail first false

/-- An entry of a list. -/
def specifier : Parser Specifier := do
  let isMark ← isAtWord "type"
  let first ← listedName
  if isMark && (← typed) then typeSpecifier first else specifierTail first false

/-! ## Imports -/

/-- Refuses an entry that binds no name. -/
def checkImported (s : Specifier) : Parser Unit := do
  let bound := s.second.getD s.first
  flagIf bound.isText
  flagIf (!bound.isText && Word.isReserved bound.text)

/-- A list of imported names in braces. -/
def importList (whollyType : Bool) : Parser (List ImportName) := do
  expect .braceOpen
  let (specs, _) ← commaList .braceClose do
    let s ← specifier
    checkImported s
    flagIf (whollyType && s.typeOnly)
    return s
  expect .braceClose
  return specs.map fun s => .named s.typeOnly

/-- `* as name`. -/
def importSpace : Parser (List ImportName) := do
  expect .star
  expectWord "as"
  discard bindingName
  return [.whole]

/-- Names in braces or a whole module. -/
def importNames (whollyType : Bool) : Parser (List ImportName) := do
  if ← isAt .star then importSpace else importList whollyType

/-- An import declaration behind what names its kind: perhaps a default import (already read if
`hasDefault`), further names, and the source. -/
def importClause (start : Nat) (whollyType hasDefault : Bool) : Parser Stmt := do
  let names ←
    if hasDefault then
      if ← eat .comma then pure (.whole :: (← importNames whollyType)) else pure [.whole]
    else importNames whollyType
  expectWord "from"
  return .importFrom start whollyType names (← sourceTail)

/-- Whether the current token is `from` or `=` or could name a variable before one of them. -/
def nameBeforeSource : Parser Bool := do
  let t ← token
  if t.isWord "from" then
    let next ← peek
    return next.isWord "from" || next.isPunct .assign
  return namesBinding t

/-- What follows the first word of an import declaration. -/
def importAfterName (start : Nat) (first : String) : Parser Stmt := do
  let isTyped ← typed
  if first == "type" && isTyped then
    if ← nameBeforeSource then
      discard bindingName
      if ← isAt .assign then
        importAliasTail
        return .compound [] []
      return ← importClause start true true
    if ← isAtAny [.star, .braceOpen] then return ← importClause start true false
  if first == "source" then
    if ← nameBeforeSource then
      discard bindingName
      expectWord "from"
      return .importFrom start false [.whole] (← sourceTail)
  if first == "defer" && (← isAt .star) then return ← importClause start false false
  if isTyped && (← isAt .assign) then
    importAliasTail
    return .compound [] []
  importClause start false true

/-- An import declaration. -/
def importDeclaration : Parser Stmt := do
  let start := (← token).start
  expectWord "import"
  let t ← token
  if t.isString then return .importFrom start false [] (← sourceTail)
  if namesBinding t then
    let first ← bindingName
    return ← importAfterName start first
  importClause start false false

/-! ## Exports -/

/-- Remembers exported names. Where there are no types, none is exported twice. -/
def recordExports (names : List String) : Parser Unit := do
  if !(← typed) then
    let before := (← state).exported
    flagIf (names.any before.contains || names.eraseDups.length != names.length)
    addExported names

/-- Refuses a local name that cannot be exported: a text, or a word that names no variable. -/
def checkExported (s : Specifier) : Parser Unit :=
  flagIf (s.first.isText || Word.isReserved s.first.text || Word.future.contains s.first.text)

/-- A list of exports behind `export` or `export type`. -/
def exportList (start : Nat) (whollyType : Bool) : Parser Stmt := do
  expect .braceOpen
  let (specs, _) ← commaList .braceClose do
    let s ← specifier
    flagIf (whollyType && s.typeOnly)
    return s
  expect .braceClose
  recordExports (specs.map fun s => (s.second.getD s.first).text)
  let marks := specs.map (·.typeOnly)
  if ← eatWord "from" then
    return .exportNames start whollyType marks (some (← sourceTail))
  specs.forM checkExported
  endStatement
  return .exportNames start whollyType marks none

/-- Everything of another module, perhaps under one name. -/
def exportAll (start : Nat) (whollyType : Bool) : Parser Stmt := do
  expect .star
  if ← eatWord "as" then
    let name ← listedName
    recordExports [name.text]
  expectWord "from"
  return .exportAll start whollyType (← sourceTail)

/-- The default export behind its keyword. -/
def exportDefault (marks : List Expr) : Parser Stmt := do
  recordExports ["default"]
  let marks := marks ++ (← decorators rules)
  let isTyped ← typed
  let t ← token
  let next ← peek
  if t.isWord "class" || (isTyped && t.isWord "abstract" && next.isWord "class" && !next.fresh) then
    discard (eatWord "abstract")
    advance
    let e ← rules.ask .classTail
    return .exportDefault (.compound .classValue (marks ++ [e]) [])
  flagIf (!marks.isEmpty)
  if t.isWord "function" || (← atAsyncFunction) then
    let isAsync ← eatWord "async"
    let (_, f) ← functionFromKeyword rules isAsync false false
    return .exportDefault f.value
  if isTyped && t.isWord "interface" && namesBinding next && !next.fresh then
    advance
    discard (inTyped (interfaceTail rules))
    return .exportDefault .literal
  let e ← rules.ask (.assign true)
  endStatement
  return .exportDefault e

/-- What `export type` exports. -/
def exportType (start : Nat) : Parser Stmt := do
  let next ← peek
  if next.isPunct .braceOpen then
    advance
    return ← exportList start true
  if next.isPunct .star then
    advance
    return ← exportAll start true
  return .exportDeclaration (← declaration rules []).stmt

/-- An exported declaration. -/
def exportedDeclaration (marks : List Expr) : Parser Stmt := do
  let marks := marks ++ (← decorators rules)
  let d ← declaration rules marks
  recordExports d.names
  return .exportDeclaration d.stmt

/-- An export. -/
def exportDeclaration (marks : List Expr) : Parser Stmt := do
  let start := (← token).start
  expectWord "export"
  let isTyped ← typed
  let t ← token
  match t.kind with
  | .punct .braceOpen => exportList start false
  | .punct .star => exportAll start false
  | .punct .assign =>
    if !isTyped then failure
    advance
    let e ← rules.ask (.assign true)
    endStatement
    return .exportDeclaration (.compound [e] [])
  | .word "default" _ =>
    advance
    exportDefault rules marks
  | .word "as" _ =>
    if !isTyped then failure
    advance
    expectWord "namespace"
    discard anyWord
    endStatement
    return .compound [] []
  | .word "type" _ =>
    if isTyped then exportType rules start else failure
  | _ => exportedDeclaration rules marks

end Grammar

end ClientBoundary
