import ClientBoundary.Script.Tree

/-!
# Edges

The modules a program names. **Static** edges come from import and export declarations at the top
level; **call** edges from `import()` and `require()` with a string literal, reached through
expression statements, variable initializers, `return` and the bodies of arrow functions.
-/

namespace ClientBoundary

/-- How a module is named. -/
inductive EdgeKind where
  /-- an import declaration -/
  | importFrom
  /-- an export of another module's names -/
  | exportFrom
  /-- `import()` -/
  | importCall
  /-- `require()` -/
  | requireCall
deriving DecidableEq, Inhabited

/-- Import and export declarations are known without running the program. -/
def EdgeKind.isStatic : EdgeKind → Bool
  | importFrom | exportFrom => true
  | importCall | requireCall => false

/-- A module that a program names. -/
structure Edge where
  /-- the text that names it -/
  specifier : String
  /-- how -/
  kind : EdgeKind
  /-- only types are used -/
  typeOnly : Bool
deriving DecidableEq, Inhabited

/-- An edge with the position of the declaration or call it comes from. -/
structure PlacedEdge where
  /-- where the declaration or call starts -/
  start : Nat
  /-- the edge -/
  edge : Edge
deriving DecidableEq, Inhabited

/-! ## Calls -/

/-- The edge of a call: the callee is the variable `require`, the first argument a string. -/
def requireEdge (start : Nat) : Expr → List Item → List PlacedEdge
  | .name "require", .value (.string s) :: _ => [⟨start, ⟨s, .requireCall, false⟩⟩]
  | _, _ => []

/-- The edge of `import()` of a string. -/
def importEdge (start : Nat) : Expr → List PlacedEdge
  | .string s => [⟨start, ⟨s, .importCall, false⟩⟩]
  | _ => []

mutual

/-- The edges of an expression. The arguments of a call come before its callee. -/
def Expr.edges : Expr → List PlacedEdge
  | .call start callee args =>
    requireEdge start callee args ++ itemEdges args ++ callee.edges
  | .importCall start source _ => importEdge start source
  | .arrow _ body => bodyEdges body
  | .awaited e => e.edges
  | .member object => object.edges
  | .array items _ => itemEdges items
  | .object members _ => memberEdges members
  | .conditional test yes no => test.edges ++ yes.edges ++ no.edges
  | .assign _ _ value => value.edges
  | .paren e => e.edges
  | _ => []

/-- The edges of elements and arguments; what is spread has none. -/
def itemEdges : List Item → List PlacedEdge
  | [] => []
  | .value e :: rest => e.edges ++ itemEdges rest
  | _ :: rest => itemEdges rest

/-- The edges of an object's values; what is spread has none. -/
def memberEdges : List Member → List PlacedEdge
  | [] => []
  | .property _ value :: rest => value.edges ++ memberEdges rest
  | _ :: rest => memberEdges rest

/-- The edges of initial values. -/
def declaratorEdges : List Declarator → List PlacedEdge
  | [] => []
  | .mk _ (some e) :: rest => e.edges ++ declaratorEdges rest
  | .mk _ none :: rest => declaratorEdges rest

/-- The call edges of a statement. -/
def Stmt.callEdges : Stmt → List PlacedEdge
  | .expr e => e.edges
  | .declare ds => declaratorEdges ds
  | .ret (some e) => e.edges
  | _ => []

/-- The call edges of the body of an arrow function. -/
def bodyEdges : List Stmt → List PlacedEdge
  | [] => []
  | s :: rest => s.callEdges ++ bodyEdges rest

end

/-! ## Declarations -/

/-- Whether an import binds types only: as a whole, or by each of its names. -/
def importsTypes (whole : Bool) (names : List ImportName) : Bool :=
  whole || (!names.isEmpty && names.all (· == .named true))

/-- Whether an export list exports types only. -/
def exportsTypes (whole : Bool) (marks : List Bool) : Bool :=
  whole || (!marks.isEmpty && marks.all id)

/-- The edges of a statement at the top level. -/
def Stmt.edges : Stmt → List PlacedEdge
  | .importFrom start whole names source => [⟨start, ⟨source, .importFrom, importsTypes whole names⟩⟩]
  | .exportNames start whole marks (some source) =>
    [⟨start, ⟨source, .exportFrom, exportsTypes whole marks⟩⟩]
  | .exportAll start whole source => [⟨start, ⟨source, .exportFrom, whole⟩⟩]
  | s => s.callEdges

/-- The edges of a program with their positions, as they are found. -/
def Program.placedEdges (p : Program) : List PlacedEdge := p.body.flatMap Stmt.edges

/-- The edges of a program. -/
def Program.edges (p : Program) : List Edge := p.placedEdges.map (·.edge)

end ClientBoundary
