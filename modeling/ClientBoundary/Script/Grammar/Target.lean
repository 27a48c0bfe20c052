import ClientBoundary.Script.Tree

/-!
# Assignment targets

The left side of an assignment is read as an expression first and must then be a **target**: a
variable, a member, or an array or object that stands for a pattern. `Expr.target?` decides it, and
answers where the members `a = 1` stand that only a pattern may have.
-/

namespace ClientBoundary

namespace Expr

/-- The expression under parentheses and type operators. -/
def bare : Expr → Expr
  | paren e => bare e
  | compound form (e :: rest) body =>
    if form = .asserted || form = .instantiated then bare e else compound form (e :: rest) body
  | e => e

/-- A variable or a member. -/
def isPlace : Expr → Bool
  | name _ | member _ => true
  | compound form _ _ => form = .index || form = .privateMember
  | _ => false

/-- A target that is no pattern. Parentheses do not hide a pattern. -/
def isSimpleTarget : Expr → Bool
  | paren (array _ _) | paren (object _ _) => false
  | paren e => isSimpleTarget e
  | compound form parts body =>
    match form, parts with
    | .asserted, e :: _ => e.bare.isPlace
    | _, _ => (compound form parts body).isPlace
  | e => e.isPlace

mutual

/-- The positions of members with defaults in a target, or `none` if the expression is no target. -/
def target? : Expr → Option (List Nat)
  | array items trailing => targetItems? trailing items
  | object members trailing => targetMembers? trailing members
  | e => if e.isSimpleTarget then some [] else none

/-- A target that may have a default. -/
def defaulted? : Expr → Option (List Nat)
  | assign plain _ _ => if plain then some [] else none
  | array items trailing => targetItems? trailing items
  | object members trailing => targetMembers? trailing members
  | e => if e.isSimpleTarget then some [] else none

/-- Elements of an array as targets. What is spread takes the rest, so nothing follows it. -/
def targetItems? (trailing : Bool) : List Item → Option (List Nat)
  | [] => some []
  | .hole :: rest => targetItems? trailing rest
  | .spread e :: rest => if rest.isEmpty && !trailing then target? e else none
  | .value e :: rest => do return (← defaulted? e) ++ (← targetItems? trailing rest)

/-- Members of an object as targets. -/
def targetMembers? (trailing : Bool) : List Member → Option (List Nat)
  | [] => some []
  | .spread e :: rest => if rest.isEmpty && !trailing then target? e else none
  | .shorthand start _ default :: rest => do
    let more ← targetMembers? trailing rest
    return if default.isEmpty then more else start :: more
  | .property _ value :: rest => do
    return (← defaulted? value) ++ (← targetMembers? trailing rest)

end

end Expr

end ClientBoundary
