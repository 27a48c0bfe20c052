import ClientBoundary.Proofs.CallSites

/-!
# What an export hides

A variable declaration and an expression may be exported. The search for calls enters neither of them then, so the
calls in an exported statement name no module: what it would add to the edges without `export` is missing, and nothing
else is (`Module.edges_export`). It is missed exactly if one of those calls does name a module.
-/

namespace ClientBoundary

/-- An exported statement, and what it is without `export`. -/
inductive Stmt.Exports : Stmt → Stmt → Prop where
  /-- a variable declaration -/
  | declaration (ds : List Declarator) : Exports (.exportDeclaration (.declare ds)) (.declare ds)
  /-- an expression as default export -/
  | default (e : Expr) : Exports (.exportDefault e) (.expr e)

variable {stmt bare : Stmt} {e : Expr} {edge : Edge}

/-- The modules that are named in an expression are named by what is reached from it. -/
theorem Expr.mem_edges : edge ∈ e.edges.map (·.edge) ↔ ∃ node, e.Reaches node ∧ node.Names edge := by
  constructor
  · intro h
    obtain ⟨a, ha, rfl⟩ := List.mem_map.1 h
    obtain ⟨way, hway⟩ := e.yields.exists_site ha
    obtain ⟨node, hnode, hnames⟩ := Option.bind_eq_some_iff.1 hway
    exact ⟨node, reaches_iff.2 ⟨way, hnode⟩, names_of_names? hnames⟩
  · rintro ⟨node, hreaches, hnames⟩
    obtain ⟨way, hway⟩ := reaches_iff.1 hreaches
    obtain ⟨start, hstart⟩ := exists_of_names hnames
    have hmem := e.yields.mem (Option.bind_eq_some_iff.2 ⟨node, hway, hstart⟩)
    exact List.mem_map_of_mem (f := PlacedEdge.edge) hmem

namespace Stmt.Exports

theorem edges (h : stmt.Exports bare) : stmt.edges = [] := by
  cases h with
  | declaration ds => exact (quiet_exportDeclaration _).edges
  | default e => exact (quiet_exportDefault e).edges

/-- The edges of a statement that could be exported are those of its calls. -/
theorem mem_edges (h : stmt.Exports bare) :
    edge ∈ bare.edges.map (·.edge) ↔ ∃ e, bare.Holds e ∧ ∃ node, e.Reaches node ∧ node.Names edge := by
  cases h with
  | default e =>
    rw [show (Stmt.expr e).edges = e.edges from rfl, Expr.mem_edges]
    constructor
    · exact fun hnode => ⟨e, .expr e, hnode⟩
    · rintro ⟨_, ⟨⟩, hnode⟩
      exact hnode
  | declaration ds =>
    rw [show (Stmt.declare ds).edges = declaratorEdges ds from rfl, declaratorEdges_eq, List.map_flatMap,
      List.mem_flatMap]
    constructor
    · rintro ⟨⟨parts, init⟩, hmem, hedge⟩
      cases init with
      | none => cases hedge
      | some e => exact ⟨e, .declare hmem, Expr.mem_edges.1 hedge⟩
    · rintro ⟨e, hholds, hnode⟩
      cases hholds with
      | declare hmem => exact ⟨_, hmem, Expr.mem_edges.2 hnode⟩

end Stmt.Exports

namespace Module

/-- The edges of statements in a row. -/
theorem edges_append (directives : List String) (before after : List Stmt) :
    (ofProgram ⟨directives, before ++ after⟩).edges =
      (ofProgram ⟨directives, before⟩).edges ++ (ofProgram ⟨directives, after⟩).edges := by
  simp only [ofProgram, Program.edges, Program.placedEdges, List.flatMap_append, List.map_append]

/-- **An export hides the calls in it.** With `export` in front, a variable declaration or an expression adds no edge,
and the edges of the statements around it are as they were. Without, it adds one for each module that is named by what
is reached from its expressions. So `export` makes no difference exactly if nothing there names a module. -/
theorem edges_export (h : stmt.Exports bare) (directives : List String) (before after : List Stmt) :
    let exported := (ofProgram ⟨directives, before ++ stmt :: after⟩).edges
    let plain := (ofProgram ⟨directives, before ++ bare :: after⟩).edges
    let front := (ofProgram ⟨directives, before⟩).edges
    let back := (ofProgram ⟨directives, after⟩).edges
    exported = front ++ back ∧
      (∃ calls, plain = front ++ calls ++ back ∧
        ∀ edge, edge ∈ calls ↔ ∃ e, bare.Holds e ∧ ∃ node, e.Reaches node ∧ node.Names edge) ∧
      (exported = plain ↔ ∀ e, bare.Holds e → ∀ node, e.Reaches node → ∀ edge, ¬ node.Names edge) := by
  intro exported plain front back
  have hexported : exported = front ++ back := by
    rw [show exported = front ++ (ofProgram ⟨directives, stmt :: after⟩).edges from edges_append ..]
    simp only [ofProgram, Program.edges, Program.placedEdges, List.flatMap_cons, h.edges, List.nil_append, back]
  have hplain : plain = front ++ bare.edges.map (·.edge) ++ back := by
    rw [show plain = front ++ (ofProgram ⟨directives, bare :: after⟩).edges from edges_append ..]
    simp only [ofProgram, Program.edges, Program.placedEdges, List.flatMap_cons, List.map_append,
      List.append_assoc, back]
  refine ⟨hexported, ⟨_, hplain, fun edge => h.mem_edges⟩, ?_⟩
  -- what stands around is the same, so the two differ by the calls alone
  have hnil : exported = plain ↔ bare.edges.map (·.edge) = [] := by
    rw [hexported, hplain, List.append_assoc, List.append_right_inj, List.self_eq_append_left]
  rw [hnil, List.eq_nil_iff_forall_not_mem]
  constructor
  · exact fun hnone e he node hnode edge hnames => hnone edge (h.mem_edges.2 ⟨e, he, node, hnode, hnames⟩)
  · intro hnone edge hedge
    obtain ⟨e, he, node, hnode, hnames⟩ := h.mem_edges.1 hedge
    exact hnone e he node hnode edge hnames

/-- The tree of a call that loads a component. -/
def lazyCall (specifier : String) : Expr :=
  .call 0 (.name "dynamic") [.value (.arrow [] [.expr (.importCall 0 (.string specifier) [])])]

theorem reaches_lazyCall (specifier : String) :
    (lazyCall specifier).Reaches (.importCall 0 (.string specifier) []) :=
  .head (.argument (List.mem_singleton_self _)) (.single (.body (List.mem_singleton_self _) (.expr _)))

theorem edges_export_lazy :
    let before : List Stmt := [.importFrom 0 false [] "./a"]
    let declared : Stmt := .declare [.mk [] (some (lazyCall "./x"))]
    (ofProgram ⟨[], before ++ .exportDeclaration declared :: [.exportDefault (lazyCall "./y")]⟩).edges ≠
        (ofProgram ⟨[], before ++ declared :: [.exportDefault (lazyCall "./y")]⟩).edges ∧
      (ofProgram ⟨[], before ++ .exportDefault (lazyCall "./y") :: []⟩).edges ≠
        (ofProgram ⟨[], before ++ .expr (lazyCall "./y") :: []⟩).edges := by
  intro before declared
  constructor
  · obtain ⟨-, -, hdiffer⟩ := edges_export (.declaration [.mk [] (some (lazyCall "./x"))]) [] before
      [.exportDefault (lazyCall "./y")]
    rw [Ne, hdiffer]
    intro hnone
    exact hnone _ (.declare (List.mem_singleton_self _)) _ (reaches_lazyCall "./x") _ (.importCall ..)
  · obtain ⟨-, -, hdiffer⟩ := edges_export (.default (lazyCall "./y")) [] before []
    rw [Ne, hdiffer]
    intro hnone
    exact hnone _ (.expr _) _ (reaches_lazyCall "./y") _ (.importCall ..)

/-- A component that is loaded by a call. -/
def lazyDeclaration : String := "const X = dynamic(() => import('./x'));"

/-- The same as an expression. -/
def lazyExpression : String := "dynamic(() => import('./y'));"

/-- Two modules that are named without `export` are not named with it. -/
theorem exported_calls_missing :
    (parse? ⟨"a.js"⟩ (lazyDeclaration ++ lazyExpression)).map (·.edges) =
        some [⟨"./x", .importCall, false⟩, ⟨"./y", .importCall, false⟩] ∧
      (parse? ⟨"a.js"⟩ ("export " ++ lazyDeclaration ++ "export default " ++ lazyExpression)).map (·.edges) =
        some [] := by
  decide +kernel

end Module

end ClientBoundary
