import ClientBoundary.Script.Grammar.Expression

/-!
# Declarations

Variables, functions, classes, and the declarations of typed dialects. Each answers its statement
together with the names it declares.
-/

namespace ClientBoundary

namespace Grammar

open ClientBoundary.Parser

variable (rules : Rules)

/-- A declaration. -/
structure Declared where
  /-- the statement -/
  stmt : Stmt
  /-- the names it declares -/
  names : List String

/-- A declaration that leaves nothing but its expressions. -/
def Declared.ofParts (es : List Expr) (stmts : List Stmt) (names : List String) : Declared :=
  ⟨.compound es stmts, names⟩

/-! ## Variables -/

/-- How variables are declared. -/
inductive VariableKind where
  | var | «let» | const | using
deriving DecidableEq

/-- One variable, as it was read. -/
structure Variable where
  /-- what is bound -/
  binding : Binding
  /-- the initial value -/
  init : Option Expr

/-- A variable with its type and initial value. -/
def variableItem : Parser Variable := do
  let b ← rules.ask .pattern
  if (← typed) && b.simple && (← isAt .bang) && !(← isFresh) then advance
  typeAnnotation rules
  if ← eat .assign then return ⟨b, some (← rules.ask (.assign true))⟩
  return ⟨b, none⟩

/-- Variables with commas between them. -/
def variableList : Parser (List Variable) := someOf (variableItem rules)

/-- Refuses variables that need an initial value and have none. -/
def checkInitialized (kind : VariableKind) (vs : List Variable) : Parser Unit := do
  if !(← read).ambient then
    flagIf (vs.any fun v =>
      v.init.isNone && (kind = .const || kind = .using || !v.binding.simple))

/-- The declaration of some variables. -/
def declaredVariables (vs : List Variable) : Declared :=
  ⟨.declare (vs.map fun v => .mk v.binding.parts v.init), vs.flatMap (·.binding.names)⟩

/-- A variable declaration behind its keyword. -/
def variableTail (kind : VariableKind) : Parser Declared := do
  let vs ← variableList rules
  checkInitialized kind vs
  endStatement
  return declaredVariables vs

/-- Whether `using` and a name on the same line start at the current token. -/
def atUsing : Parser Bool := do
  if ← isAtWord "using" then
    let next ← peek
    return namesBinding next && !next.fresh
  else return false

/-- Whether `await using` and a name start at the current token. -/
def atAwaitUsing : Parser Bool := do
  if ← isAtWord "await" then
    look do
      pass
      if (← isFresh) then return false
      atUsing
  else return false

/-! ## Functions and classes -/

/-- A function declaration. -/
def functionDeclaration (isAmbient : Bool) : Parser Declared := do
  let isAsync ← eatWord "async"
  let (name, f) ← functionFromKeyword rules isAsync true false
  flagIf (isAmbient && f.hasBody)
  return .ofParts [f.value] [] name.toList

/-- A class declaration; `marks` are the expressions of its decorators. -/
def classDeclaration (marks : List Expr) : Parser Declared := do
  expectWord "class"
  let t ← token
  let names := if namesBinding t && !t.isWord "implements" then t.word?.toList else []
  let e ← rules.ask .classTail
  return .ofParts (marks ++ [e]) [] names

/-! ## Typed declarations -/

/-- Runs `p` in a declaration of typed dialects, where `await` is no operator. -/
def inTyped {α : Type} (p : Parser α) : Parser α :=
  withReader (fun s => { s with awaits := false }) p

/-- An interface behind its keyword. -/
def interfaceTail : Parser Declared := do
  let name ← bindingName
  typeParameters rules
  if ← eatWord "extends" then
    discard (someOf do
      discard (rules.ask .access)
      typeArguments rules)
  typeBody rules
  return .ofParts [] [] [name]

/-- The name of a type behind its keyword, with what it stands for. -/
def aliasTail : Parser Declared := do
  let name ← bindingName
  typeParameters rules
  expect .assign
  rules.ask .type
  endStatement
  return .ofParts [] [] [name]

/-- A member of an enumeration. Its name is a word or a text. -/
def enumMember : Parser (List Expr) := do
  let t ← token
  match t.kind with
  | .word _ _ | .string _ => pass
  | .template closed _ =>
    flagIf (!closed)
    discard (templateHoles false (rules.ask .expr))
  | .punct .bracketOpen =>
    advance
    let e ← rules.ask (.assign true)
    match e with
    | .string _ => pure ()
    | .compound .template [] _ => pure ()
    | _ => flag
    expect .bracketClose
  | _ => failure
  initializer rules

/-- An enumeration behind its keyword. -/
def enumTail : Parser Declared := do
  let name ← bindingName
  expect .braceOpen
  let (ms, _) ← inTyped (commaList .braceClose (enumMember rules))
  expect .braceClose
  return .ofParts ms.flatten [] [name]

/-- Statements of a name space. -/
def spaceBody : Parser (List Stmt) :=
  withReader (fun s => { s with awaits := false, returns := false }) (block rules)

/-- A name space behind its keyword: names with points between them, or a text where the keyword is
`module`. -/
def spaceTail (isModule : Bool) : Parser Declared := do
  let t ← token
  if isModule && t.isString then
    advance
    if ← isAt .braceOpen then return .ofParts [] (← spaceBody rules) []
    endStatement
    return .ofParts [] [] []
  let name ← bindingName
  loop () fun _ => do
    if ← eat .dot then
      discard anyWord
      return .inl ()
    else return .inr ()
  return .ofParts [] (← spaceBody rules) [name]

/-- Behind `import name =`: another module or a name. -/
def importAliasTail : Parser Unit := do
  expect .assign
  if ← eatWord "require" then
    expect .parenOpen
    if (← token).isString then advance else failure
    expect .parenClose
  else typeName
  endStatement

/-! ## Declarations behind modifiers -/

/-- Modifiers of declarations. -/
def declarationModifiers : List String :=
  ["abstract", "accessor", "async", "declare", "private", "protected", "public", "readonly",
   "static"]

/-- Whether a declaration of typed dialects starts at the current token. -/
def startsDeclaration : Parser Bool :=
  loop () fun _ => do
    let t ← token
    match t.word? with
    | none => return .inr false
    | some w =>
      if ["var", "let", "const", "function", "class", "enum"].contains w then return .inr true
      if ["interface", "type"].contains w then
        advance
        let t ← token
        return .inr (namesBinding t && !t.fresh)
      if ["module", "namespace"].contains w then
        advance
        let t ← token
        return .inr (!t.fresh && (namesBinding t || t.isString))
      if w == "global" then
        advance
        let t ← token
        return .inr (t.isPunct .braceOpen)
      if w == "import" then
        advance
        let t ← token
        return .inr (t.isString || t.isAnyPunct [.star, .braceOpen] || namesBinding t)
      if declarationModifiers.contains w then
        advance
        if (← isFresh) && w != "static" then return .inr false
        return .inl ()
      return .inr false

/-- The modifiers of a declaration. -/
def declarationMarks : Parser (List String) :=
  loop [] fun done => do
    match (← token).word? with
    | some w =>
      let next ← peek
      if declarationModifiers.contains w && !next.fresh && next.word?.isSome &&
          !(w == "async" && next.isWord "function") then
        advance
        return .inl (w :: done)
      else return .inr done.reverse
    | none => return .inr done.reverse

/-- Variables behind `const`, `let` or `var`, or an enumeration behind `const`. -/
def variablesOrEnum : Parser Declared := do
  if ← eatWord "const" then
    if (← typed) && (← eatWord "enum") then return ← enumTail rules
    return ← variableTail rules .const
  if ← eatWord "let" then return ← variableTail rules .let
  expectWord "var"
  variableTail rules .var

/-- A declaration of another module's name, behind `import`. -/
def declaredImport : Parser Declared := do
  discard (eatWord "type")
  let name ← bindingName
  importAliasTail
  return .ofParts [] [] [name]

/-- A declaration behind its modifiers, by its keyword. -/
def declarationBody (mods : List String) (marks : List Expr) : Parser Declared := do
  let isAmbient := mods.contains "declare"
  let rejects (allowed : List String) : Bool := mods.any fun m => !allowed.contains m
  let t ← token
  match t.word? with
  | some "class" =>
    flagIf (rejects ["declare", "abstract"])
    classDeclaration rules marks
  | some "function" =>
    flagIf (rejects ["declare"])
    functionDeclaration rules isAmbient
  | some "async" =>
    flagIf (rejects ["declare"])
    if ← atAsyncFunction then functionDeclaration rules isAmbient else failure
  | some "interface" =>
    flagIf (rejects ["declare"])
    advance
    inTyped (interfaceTail rules)
  | some "type" =>
    flagIf (rejects ["declare"])
    advance
    inTyped (aliasTail rules)
  | some "enum" =>
    flagIf (rejects ["declare"])
    advance
    inTyped (enumTail rules)
  | some "module" | some "namespace" =>
    flagIf (rejects ["declare"])
    advance
    inTyped (spaceTail rules (t.isWord "module"))
  | some "global" =>
    flagIf (rejects ["declare"])
    advance
    return .ofParts [] (← spaceBody rules) []
  | some "import" =>
    flagIf (rejects [])
    advance
    declaredImport
  | some "const" | some "let" | some "var" =>
    flagIf (rejects ["declare"])
    variablesOrEnum rules
  | _ => failure

/-- Words that start a declaration in every dialect. -/
def plainDeclarations : List String := ["class", "function", "async", "const", "let", "var"]

/-- A declaration with its modifiers. -/
def declaration (marks : List Expr) : Parser Declared := do
  let isTyped ← typed
  let mods ← if isTyped then declarationMarks else pure []
  if !isTyped && !(← token).isAnyWord plainDeclarations then failure
  flagIf (mods.eraseDups.length != mods.length)
  flagIf (!marks.isEmpty && !(← isAtWord "class"))
  withReader (fun s => { s with ambient := s.ambient || mods.contains "declare" })
    (declarationBody rules mods marks)

end Grammar

end ClientBoundary
