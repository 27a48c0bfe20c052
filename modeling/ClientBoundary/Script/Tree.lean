/-!
# Syntax trees

Trees keep what decides about module edges and drop what does not: types are not kept, and forms
that no edge rule tells apart share the constructor `compound`. Every part of a form is kept, so a
tree holds each `import()` and each call of its text, with the position where it **starts**.
-/

namespace ClientBoundary

/-- The forms of expression that only the grammar tells apart. -/
inductive Form where
  /-- an operator before its operand -/
  | unary
  /-- `++` or `--` -/
  | update
  /-- an operator between operands -/
  | binary
  /-- `&&` or `||` -/
  | logical
  /-- `??` -/
  | coalesce
  /-- expressions with commas between them -/
  | sequence
  /-- a template -/
  | template
  /-- a template behind a tag -/
  | tagged
  /-- `new` -/
  | construct
  /-- `yield` -/
  | yielded
  /-- a member behind `#` -/
  | privateMember
  /-- a member by computed key -/
  | index
  /-- a chain with `?.` in it -/
  | chain
  /-- an operand seen under another type -/
  | asserted
  /-- type arguments behind an expression -/
  | instantiated
  /-- a function with a body of its own context -/
  | functionValue
  /-- a class -/
  | classValue
  /-- an element -/
  | element
  /-- `import.meta`, `new.target` -/
  | metaProperty
deriving DecidableEq, Inhabited

/-- What an import declaration binds by one of its specifiers. -/
inductive ImportName where
  /-- the default export or the whole module -/
  | whole
  /-- a named export, perhaps for its type only -/
  | named (typeOnly : Bool)
deriving DecidableEq, Inhabited

mutual

/-- Expressions. -/
inductive Expr where
  /-- a variable -/
  | name (text : String)
  /-- a string literal -/
  | string (value : String)
  /-- a value without parts -/
  | literal
  /-- an expression in parentheses -/
  | paren (inner : Expr)
  /-- an array, perhaps with a comma at the end -/
  | array (elements : List Item) (trailing : Bool)
  /-- an object, perhaps with a comma at the end -/
  | object (members : List Member) (trailing : Bool)
  /-- an arrow function; a body that is an expression is one expression statement -/
  | arrow (params : List Expr) (body : List Stmt)
  /-- a call -/
  | call (start : Nat) (callee : Expr) (args : List Item)
  /-- `import(…)` -/
  | importCall (start : Nat) (source : Expr) (options : List Expr)
  /-- `await` -/
  | awaited (operand : Expr)
  /-- a member by name -/
  | member (object : Expr)
  /-- a choice between two expressions -/
  | conditional (test yes no : Expr)
  /-- an assignment; `plain` if the operator is `=` -/
  | assign (plain : Bool) (target value : Expr)
  /-- any other form -/
  | compound (form : Form) (parts : List Expr) (body : List Stmt)

/-- Elements of arrays and arguments of calls. -/
inductive Item where
  /-- an expression -/
  | value (e : Expr)
  /-- an expression that is spread -/
  | spread (e : Expr)
  /-- nothing between two commas -/
  | hole

/-- Members of objects. -/
inductive Member where
  /-- a key with its value; `key` holds a computed key; methods have a function as value -/
  | property (key : List Expr) (value : Expr)
  /-- a name that is key and variable, perhaps with a default, which only a pattern may have -/
  | shorthand (start : Nat) (name : String) (default : List Expr)
  /-- an object that is spread -/
  | spread (e : Expr)

/-- One variable of a declaration. -/
inductive Declarator where
  /-- the expressions in the pattern, and the initial value -/
  | mk (parts : List Expr) (init : Option Expr)

/-- Statements. -/
inductive Stmt where
  /-- an expression -/
  | expr (e : Expr)
  /-- a variable declaration -/
  | declare (declarators : List Declarator)
  /-- `return` -/
  | ret (value : Option Expr)
  /-- an import declaration; `typeOnly` if it imports types as a whole -/
  | importFrom (start : Nat) (typeOnly : Bool) (names : List ImportName) (source : String)
  /-- a list of exports; for each one whether it is marked as a type -/
  | exportNames (start : Nat) (typeOnly : Bool) (marks : List Bool) (source : Option String)
  /-- everything of another module -/
  | exportAll (start : Nat) (typeOnly : Bool) (source : String)
  /-- a declaration that is exported -/
  | exportDeclaration (inner : Stmt)
  /-- the default export -/
  | exportDefault (value : Expr)
  /-- any other statement -/
  | compound (exprs : List Expr) (stmts : List Stmt)

end

instance : Inhabited Expr := ⟨.literal⟩
instance : Inhabited Stmt := ⟨.compound [] []⟩

/-- A source text as a tree. -/
structure Program where
  /-- the leading string statements -/
  directives : List String
  /-- the statements behind them -/
  body : List Stmt
deriving Inhabited

end ClientBoundary
