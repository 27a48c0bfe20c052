import ClientBoundary.Script.Grammar.Function

/-!
# Classes

Heritage and members of classes. A member starts with its modifiers; a modifier is a word that
something it can modify follows.
-/

namespace ClientBoundary

namespace Grammar

open ClientBoundary.Parser

variable (rules : Rules)

/-! ## Heritage -/

/-- A class or interface that is implemented. -/
def implemented : Parser Unit := do
  if namesBinding (← token) then typeReference rules else failure

/-- Items with commas between them, at least one. -/
def someOf {α : Type} (item : Parser α) : Parser (List α) := do
  let first ← item
  loop [first] fun done => do
    if ← eat .comma then return .inl ((← item) :: done) else return .inr done.reverse

/-- What a class extends and implements; each clause stands once, `extends` first with one class. -/
def heritage : Parser (List Expr) := do
  loop (([] : List Expr), false, false) fun (supers, extended, implements) => do
    if ← isAtWord "extends" then
      flagIf (extended || implements)
      advance
      let es ← someOf (do
        let e ← rules.ask .access
        if ← typed then typeArguments rules
        return e)
      flagIf (es.length != 1)
      return .inl (supers ++ es, true, implements)
    else if (← typed) && (← isAtWord "implements") then
      flagIf implements
      advance
      discard (someOf (implemented rules))
      return .inl (supers, extended, true)
    else return .inr supers

/-! ## Members -/

/-- Modifiers of members in every dialect. -/
def plainMemberModifiers : List String := ["static", "accessor", "async"]

/-- Modifiers of members in typed dialects. -/
def typedMemberModifiers : List String :=
  ["abstract", "declare", "public", "private", "protected", "readonly", "override"]

/-- Modifiers that say who may use a member. -/
def accessModifiers : List String := ["public", "private", "protected"]

/-- Whether the current word modifies the member that follows. `static` may stand on a line before,
and a brace behind it starts a block instead. -/
def isMemberModifier (w : String) : Parser Bool := do
  let next ← peek
  if w == "static" then return canFollowModifier next && !next.isPunct .braceOpen
  return modifierWords.contains w && !next.fresh && canFollowModifier next

/-- The modifiers of a member. -/
def memberModifiers : Parser (List String) :=
  loop [] fun done => do
    match (← token).word? with
    | some w =>
      if ← isMemberModifier w then
        advance
        return .inl (w :: done)
      else return .inr done.reverse
    | none => return .inr done.reverse

/-- Refuses modifiers that do not exist in the dialect or stand twice. -/
def checkMemberModifiers (mods : List String) : Parser Unit := do
  let isTyped ← typed
  flagIf (mods.any fun m =>
    !(plainMemberModifiers.contains m || (isTyped && typedMemberModifiers.contains m)))
  flagIf (mods.eraseDups.length != mods.length)
  flagIf ((mods.filter accessModifiers.contains).length > 1)

/-- The name of a member, which may be private. -/
def memberName : Parser PropertyName := do
  let t ← token
  match t.kind with
  | .privateName name =>
    flagIf (name == "constructor")
    advance
    return ⟨t, []⟩
  | _ => propertyName rules

/-- A block that runs when the class is made. -/
def staticBlock : Parser Expr := do
  expectWord "static"
  let body ← withReader
    (fun s => { s with awaits := true, yields := false, returns := false, allowIn := true })
    (block rules)
  return .compound .functionValue [] body

/-- The value a field starts with. -/
def fieldValue : Parser (List Expr) :=
  withReader (fun s => { s with awaits := false, yields := false, allowIn := true, decorates := false })
    (initializer rules)

/-- A member behind its modifiers, without decorators. -/
def memberBody (mods : List String) : Parser (List Expr) := do
  let isStatic := mods.contains "static"
  let isAsync := mods.contains "async"
  if ← atAccessor then
    let isGetter ← isAtWord "get"
    advance
    let key ← memberName rules
    flagIf isAsync
    flagIf (key.text? == some "constructor" && !isStatic && key.computed.isEmpty)
    flagIf (key.text? == some "prototype" && isStatic && key.computed.isEmpty)
    let f ← accessorTail rules isGetter
    return key.computed ++ [f.value]
  if (← typed) && (← atIndexSignature) then
    indexSignature rules
    endMember
    return []
  let isGenerator ← eat .star
  let key ← memberName rules
  let text? := if key.computed.isEmpty then key.text? else none
  flagIf (text? == some "prototype" && isStatic)
  let isOptional ← if ← typed then eat .question else pure false
  if isGenerator || (← isAtAny [.parenOpen, .less]) then
    flagIf (text? == some "constructor" && !isStatic && (isAsync || isGenerator))
    let f ← functionTail rules { isAsync, isGenerator }
    return key.computed ++ [f.value]
  flagIf isAsync
  flagIf (text? == some "constructor")
  if (← typed) && !isOptional && (← isAt .bang) && !(← isFresh) then advance
  typeAnnotation rules
  let value ← fieldValue rules
  endStatement
  return key.computed ++ value

/-- A member. -/
def member : Parser (List Expr) := do
  if ← eat .semicolon then return []
  let marks ← decorators rules
  if (← isAtWord "static") && (← peek).isPunct .braceOpen then
    flagIf (!marks.isEmpty)
    return [← staticBlock rules]
  let mods ← memberModifiers
  checkMemberModifiers mods
  return marks ++ (← memberBody rules mods)

/-- A class behind its keyword. -/
def classTail : Parser Expr := do
  let t ← token
  if namesBinding t && !t.isWord "implements" then discard bindingName
  typeParameters rules
  let supers ← heritage rules
  expect .braceOpen
  let members ← itemsUntil .braceClose (member rules)
  expect .braceClose
  return .compound .classValue (supers ++ members.flatten) []

end Grammar

end ClientBoundary
