import ClientBoundary.Script.Parser

/-!
# Names, patterns and parameters

What declarations bind: single names, array and object patterns with defaults, and the parameters
of functions with their modifiers and types.
-/

namespace ClientBoundary

namespace Grammar

open ClientBoundary.Parser

variable (rules : Rules)

/-! ## Property names -/

/-- The name of a property. -/
structure PropertyName where
  /-- the first token -/
  token : Token
  /-- the expression of a computed name -/
  computed : List Expr

/-- The name, if it is a word or a string. -/
def PropertyName.text? (n : PropertyName) : Option String :=
  match n.token.kind with
  | .word w _ => some w
  | .string s => some s
  | _ => none

/-- A word, string or number, or an expression in brackets. -/
def propertyName : Parser PropertyName := do
  let t ← token
  match t.kind with
  | .word _ _ | .string _ | .number => pass; return ⟨t, []⟩
  | .punct .bracketOpen =>
    advance
    let e ← withIn (rules.ask (.assign true))
    expect .bracketClose
    return ⟨t, [e]⟩
  | _ => failure

/-- Whether a token can be the name of a property or start one. -/
def startsPropertyName (t : Token) : Bool :=
  match t.kind with
  | .word _ _ | .string _ | .number | .privateName _ => true
  | .punct .bracketOpen => true
  | _ => false

/-! ## Modifiers -/

/-- Words that may stand before a declaration or member to modify it. -/
def modifierWords : List String :=
  ["abstract", "accessor", "async", "const", "declare", "default", "export", "in", "public",
   "private", "protected", "readonly", "static", "out", "override"]

/-- Modifiers of parameters. -/
def parameterModifiers : List String :=
  ["public", "private", "protected", "readonly", "override"]

/-- Whether a token can follow a modifier. -/
def canFollowModifier (t : Token) : Bool :=
  startsPropertyName t || t.isAnyPunct [.braceOpen, .star, .ellipsis]

/-- Whether the current word modifies what follows it on the same line. -/
def isModifier : Parser Bool := do
  let next ← peek
  return !next.fresh && canFollowModifier next

/-- Passes modifiers out of `modifierWords`. -/
def modifiers : Parser (List String) :=
  loop [] fun done => do
    let t ← token
    match t.word? with
    | some w =>
      if modifierWords.contains w && (← isModifier) then
        advance
        return .inl (w :: done)
      else return .inr done.reverse
    | none => return .inr done.reverse

/-! ## Decorators -/

/-- Expressions behind `@`. -/
def decorators : Parser (List Expr) :=
  loop [] fun done => do
    if ← isAt .atSign then
      advance
      let e ← withReader (fun s => { s with decorates := true }) (rules.ask .access)
      return .inl (e :: done)
    else return .inr done.reverse

/-! ## Patterns -/

/-- A type behind a colon, in dialects that have types. -/
def typeAnnotation : Parser Unit := do
  if (← typed) && (← isAt .colon) then
    advance
    rules.ask .type

/-- A default behind `=`. -/
def initializer : Parser (List Expr) := do
  if ← eat .assign then return [← withIn (rules.ask (.assign true))] else return []

/-- A pattern with an optional default. -/
def element : Parser Binding := do
  let b ← rules.ask .pattern
  let init ← initializer rules
  return { b with parts := b.parts ++ init }

/-- The rest of what is taken apart. Nothing may follow it. -/
def restElement (close : Punct) : Parser Binding := do
  expect .ellipsis
  let b ← rules.ask .pattern
  if ← isAt close then return b else failure

/-- One property of an object pattern. -/
def patternProperty : Parser Binding := do
  let t ← token
  if t.isPunct .ellipsis then
    let b ← restElement rules .braceClose
    flagIf (!b.simple)
    return b
  let key ← propertyName rules
  if namesBinding t && !(← isAt .colon) then
    let s ← read
    flagIf (t.isWord "await" && s.awaits)
    flagIf (t.isWord "yield" && s.yields)
    let init ← initializer rules
    return ⟨t.word?.toList, init, false⟩
  else
    expect .colon
    let b ← element rules
    return { b with parts := key.computed ++ b.parts }

/-- One place of an array pattern. -/
def patternItem : Parser Binding := do
  if ← isAt .comma then return ⟨[], [], false⟩
  if ← isAt .ellipsis then return ← restElement rules .bracketClose
  element rules

/-- Puts the parts of a pattern together. -/
def gather (bs : List Binding) : Binding :=
  ⟨bs.flatMap (·.names), bs.flatMap (·.parts), false⟩

/-- A name or pattern. -/
def pattern : Parser Binding := do
  if ← eat .braceOpen then
    let (bs, _) ← withIn (commaList .braceClose (patternProperty rules))
    expect .braceClose
    return gather bs
  if ← eat .bracketOpen then
    let (bs, _) ← withIn (commaList .bracketClose (patternItem rules))
    expect .bracketClose
    return gather bs
  return ⟨[← bindingName], [], true⟩

/-! ## Parameters -/

/-- A parameter in its list. Answers its expressions, and whether it takes all further arguments. -/
def parameter : Parser (List Expr × Bool) := do
  let marks ← decorators rules
  let mods ← modifiers
  let isTyped ← typed
  flagIf (!isTyped && !mods.isEmpty)
  flagIf (mods.any fun m => !parameterModifiers.contains m)
  if ← eat .ellipsis then
    let b ← rules.ask .pattern
    flagIf (← isAt .question)
    if isTyped then discard (eat .question)
    typeAnnotation rules
    flagIf (← isAt .assign)
    let init ← initializer rules
    return (marks ++ b.parts ++ init, true)
  let b ← rules.ask .pattern
  if isTyped then discard (eat .question)
  typeAnnotation rules
  let init ← initializer rules
  return (marks ++ b.parts ++ init, false)

/-- Parameters behind an opening parenthesis, which is passed with the closing one. The parameter
that takes all further arguments is the last one, and outside ambient declarations no comma follows
it. Answers the expressions and the number of parameters, and whether the last one takes the rest. -/
def parameters : Parser (List Expr × Nat × Bool) := do
  expect .parenOpen
  if (← typed) && (← isAtWord "this") then
    advance
    typeAnnotation rules
    if !(← isAt .parenClose) then expect .comma
  let (ps, trailing) ← withIn (commaList .parenClose (parameter rules))
  expect .parenClose
  let rests := ps.dropLast.any (·.2)
  let last := (ps.getLast?.map (·.2)).getD false
  flagIf rests
  flagIf (last && trailing && !(← read).ambient)
  return (ps.flatMap (·.1), ps.length, last)

end Grammar

end ClientBoundary
