import Mathlib.Logic.Relation
import ClientBoundary.Script.Edge

/-!
# What is searched for calls

The search for calls goes from the expressions that statements hold (`Stmt.Holds`) to their parts
(`Expr.Part`), and from there on. A program **reaches** an expression if such a way leads to it.

The search visits the arguments of a call before its callee, although the callee stands first in the text. So an
edge in an argument and an edge in the callee of the same call are **crossed** (`Expr.Crosses`).
-/

namespace ClientBoundary

/-- The expressions of a statement that are searched. -/
inductive Stmt.Holds : Stmt → Expr → Prop where
  /-- an expression statement -/
  | expr (e : Expr) : Holds (.expr e) e
  /-- the initial value of a variable -/
  | declare {ds : List Declarator} {parts : List Expr} {e : Expr} (h : .mk parts (some e) ∈ ds) :
    Holds (.declare ds) e
  /-- what is returned -/
  | ret (e : Expr) : Holds (.ret (some e)) e

/-- The parts of an expression that are searched. -/
inductive Expr.Part : Expr → Expr → Prop where
  /-- what is called -/
  | callee (start : Nat) (callee : Expr) (args : List Item) : Part (.call start callee args) callee
  /-- an argument that is not spread -/
  | argument {start : Nat} {callee : Expr} {args : List Item} {e : Expr} (h : .value e ∈ args) :
    Part (.call start callee args) e
  /-- an expression in a statement of an arrow function -/
  | body {params : List Expr} {body : List Stmt} {stmt : Stmt} {e : Expr} (h : stmt ∈ body) (he : stmt.Holds e) :
    Part (.arrow params body) e
  /-- what is awaited -/
  | awaited (e : Expr) : Part (.awaited e) e
  /-- the object of a member -/
  | object (e : Expr) : Part (.member e) e
  /-- an element that is not spread -/
  | element {items : List Item} {trailing : Bool} {e : Expr} (h : .value e ∈ items) :
    Part (.array items trailing) e
  /-- the value of a property -/
  | property {members : List Member} {trailing : Bool} {key : List Expr} {e : Expr}
    (h : .property key e ∈ members) : Part (.object members trailing) e
  /-- what a choice depends on -/
  | test (test yes no : Expr) : Part (.conditional test yes no) test
  /-- what is chosen if so -/
  | yes (test yes no : Expr) : Part (.conditional test yes no) yes
  /-- what is chosen if not -/
  | no (test yes no : Expr) : Part (.conditional test yes no) no
  /-- what is assigned -/
  | assigned (plain : Bool) (target value : Expr) : Part (.assign plain target value) value
  /-- what stands in parentheses -/
  | paren (e : Expr) : Part (.paren e) e

/-- A way of the search from one expression to another. -/
abbrev Expr.Reaches : Expr → Expr → Prop := Relation.ReflTransGen Expr.Part

/-- An expression that the search through a program comes to. -/
def Program.Reaches (p : Program) (e : Expr) : Prop := ∃ stmt ∈ p.body, ∃ e₀, stmt.Holds e₀ ∧ e₀.Reaches e

/-- Two edges of one call: `a` in its arguments, `b` in its callee. -/
def Expr.CrossesHere (e : Expr) (a b : PlacedEdge) : Prop :=
  ∃ start callee args, e = .call start callee args ∧ a ∈ itemEdges args ∧ b ∈ callee.edges

/-- Two edges of one call that is reached from an expression. -/
def Expr.Crosses (e : Expr) (a b : PlacedEdge) : Prop := ∃ call, e.Reaches call ∧ call.CrossesHere a b

/-- Two edges of one call that is reached from a statement. -/
def Stmt.Crosses (stmt : Stmt) (a b : PlacedEdge) : Prop := ∃ e, stmt.Holds e ∧ e.Crosses a b

/-- **Two edges of one call** that a program reaches: `a` in its arguments, `b` in its callee. -/
def Program.Crosses (p : Program) (a b : PlacedEdge) : Prop := ∃ call, p.Reaches call ∧ call.CrossesHere a b

variable {a b : PlacedEdge}

theorem Program.crosses_iff {p : Program} : p.Crosses a b ↔ ∃ stmt ∈ p.body, stmt.Crosses a b := by
  constructor
  · rintro ⟨call, ⟨stmt, hstmt, e, hholds, hreaches⟩, hcrosses⟩
    exact ⟨stmt, hstmt, e, hholds, call, hreaches, hcrosses⟩
  · rintro ⟨stmt, hstmt, e, hholds, call, hreaches, hcrosses⟩
    exact ⟨call, ⟨stmt, hstmt, e, hholds, hreaches⟩, hcrosses⟩

namespace Expr

/-- A crossing is one of the expression itself or of a part. -/
theorem crosses_iff {e : Expr} : e.Crosses a b ↔ e.CrossesHere a b ∨ ∃ part, e.Part part ∧ part.Crosses a b := by
  constructor
  · rintro ⟨call, hreaches, hcrosses⟩
    rcases Relation.ReflTransGen.cases_head hreaches with rfl | ⟨part, hpart, hrest⟩
    · exact .inl hcrosses
    · exact .inr ⟨part, hpart, call, hrest, hcrosses⟩
  · rintro (hcrosses | ⟨part, hpart, call, hrest, hcrosses⟩)
    · exact ⟨e, .refl, hcrosses⟩
    · exact ⟨call, .head hpart hrest, hcrosses⟩

theorem crosses_call {start : Nat} {callee : Expr} {args : List Item} :
    (call start callee args).Crosses a b ↔
      (a ∈ itemEdges args ∧ b ∈ callee.edges) ∨ callee.Crosses a b ∨ ∃ e, .value e ∈ args ∧ e.Crosses a b := by
  rw [crosses_iff]
  constructor
  · rintro (⟨_, _, _, heq, ha, hb⟩ | ⟨part, hpart, hcrosses⟩)
    · cases heq
      exact .inl ⟨ha, hb⟩
    · cases hpart with
      | callee => exact .inr (.inl hcrosses)
      | argument h => exact .inr (.inr ⟨part, h, hcrosses⟩)
  · rintro (⟨ha, hb⟩ | hcrosses | ⟨e, he, hcrosses⟩)
    · exact .inl ⟨start, callee, args, rfl, ha, hb⟩
    · exact .inr ⟨callee, .callee start callee args, hcrosses⟩
    · exact .inr ⟨e, .argument he, hcrosses⟩

/-- Of an expression that is no call, only the parts matter. -/
theorem crosses_iff_parts {e : Expr} (hcall : ∀ start callee args, e ≠ call start callee args) :
    e.Crosses a b ↔ ∃ part, e.Part part ∧ part.Crosses a b := by
  rw [crosses_iff, or_iff_right]
  rintro ⟨start, callee, args, heq, -, -⟩
  exact hcall start callee args heq

end Expr

end ClientBoundary
