import ClientBoundary.Proofs.ExpressionRules

/-!
# The rules of statements

Each rule answers a statement that stands where it was read. Most statements hold no edges at all: only
expressions, variables, `return` and the declarations of imports and exports do.
-/

namespace ClientBoundary

variable {s s₀ s' : ParseState}

/-- Statements in which nothing is found stand wherever they were read, so the rules of most statements are proved
to answer quiet ones. -/
theorem Parser.Keeps.quiet {p : Parser Stmt} (h : p.Keeps s fun stmt _ => stmt.Quiet) :
    p.Keeps s fun stmt s' => stmt.Stands s s' :=
  h.imp fun _ _ hs hstmt => hstmt.stands hs

namespace Grammar

open ClientBoundary.Parser

variable {rules : Rules} (hrules : rules.Keep)

/-! ## Variables -/

/-- A variable as it is declared. -/
def Variable.declarator (v : Variable) : Declarator := .mk v.binding.parts v.init

/-- Items with commas between them, at least one, are a row; the argument is that of `keeps_commaList`. -/
theorem keeps_someOf {α : Type} {p : Parser α} {item : α → ParseState → ParseState → Prop}
    (hitem : ∀ s, p.Keeps s fun a s' => item a s s') : (someOf p).Keeps s fun as s' => Row item as s s' := by
  refine (hitem s).bind fun first s₁ _ hfirst => ?_
  have hstart : Row item [first].reverse s s₁ := .cons (.refl s) hfirst (.nil (.refl s₁))
  refine .loop (fun done s' => Row item done.reverse s s') hstart fun done s₂ hdone => ?_
  refine .step (.refl s₂) fun _ s₃ h₃ => .ite (fun _ => ?_) fun _ => .pure (hdone.leads_trans h₃)
  exact (hitem s₃).bind fun a s₄ _ ha => .pure ((hdone.leads_trans h₃).snoc_reverse ha)

section Variables

include hrules

/-- A variable stands where its initial value was read. Its pattern, with the defaults in it, and its type are not
searched. -/
theorem keeps_variableItem : (variableItem rules).Keeps s fun v s' => v.declarator.Stands s s' := by
  refine .step (.refl s) fun b s₁ h₁ => .step h₁ fun _ s₂ h₂ => .step h₂ fun _ s₃ h₃ => .step h₃ fun _ s₄ h₄ => ?_
  refine .when h₄ fun s₅ h₅ => .step h₅ fun _ s₆ h₆ => .step h₆ fun _ s₇ h₇ => .ite (fun _ => ?_) fun _ => ?_
  · exact (hrules (.assign true) s₇).bind fun e s₈ _ he => .pure (Arranged.mono he h₇ (.refl s₈))
  · exact .pure (.nil h₇ fun _ _ h => h)

/-- **Variables** stand where their initial values stand one behind the other. -/
theorem keeps_variableTail (kind : VariableKind) :
    (variableTail rules kind).Keeps s fun d s' => d.stmt.Stands s s' := by
  refine (keeps_someOf fun s => keeps_variableItem (s := s) hrules).bind fun vs s₁ _ hvs => ?_
  refine .step (.refl s₁) fun _ s₂ h₂ => .step h₂ fun _ s₃ h₃ => .pure (Stmt.stands_declare ?_)
  exact (hvs.leads_trans h₃).map Variable.declarator

end Variables

/-! ## Declarations -/

/-- Declarations that leave only their parts are not searched, whatever the parts are. -/
theorem quiet_ofParts (es : List Expr) (stmts : List Stmt) (names : List String) :
    (Declared.ofParts es stmts names).stmt.Quiet :=
  Stmt.quiet_compound es stmts

/-- A function is declared without leaving anything to find, and so is a class. Calls inside of them are no edges of
the module. -/
theorem keeps_functionDeclaration (rules : Rules) (isAmbient : Bool) :
    (functionDeclaration rules isAmbient).Keeps s fun d _ => d.stmt.Quiet :=
  .skip fun _ _ => .skip fun _ _ => .skip fun _ _ => .pure (quiet_ofParts _ _ _)

theorem keeps_classDeclaration (rules : Rules) (marks : List Expr) :
    (classDeclaration rules marks).Keeps s fun d _ => d.stmt.Quiet :=
  .skip fun _ _ => .skip fun _ _ => .skip fun _ _ => .pure (quiet_ofParts _ _ _)

theorem keeps_interfaceTail (rules : Rules) : (interfaceTail rules).Keeps s fun d _ => d.stmt.Quiet :=
  .skip fun _ _ => .skip fun _ _ => .skip fun _ s₁ => .when (.refl s₁) fun _ _ =>
    .skip fun _ _ => .pure (quiet_ofParts _ _ _)

theorem keeps_aliasTail (rules : Rules) : (aliasTail rules).Keeps s fun d _ => d.stmt.Quiet :=
  .skip fun _ _ => .skip fun _ _ => .skip fun _ _ => .skip fun _ _ => .skip fun _ _ => .pure (quiet_ofParts _ _ _)

/-- Nor are the values in an enumeration searched. -/
theorem keeps_enumTail (rules : Rules) : (enumTail rules).Keeps s fun d _ => d.stmt.Quiet :=
  .skip fun _ _ => .skip fun _ _ => .skip fun _ _ => .skip fun _ _ => .pure (quiet_ofParts _ _ _)

/-- The body of a name space is read as statements, and not searched: an import in it is no edge. -/
theorem keeps_spaceTail (rules : Rules) (isModule : Bool) :
    (spaceTail rules isModule).Keeps s fun d _ => d.stmt.Quiet := by
  refine .token (.ite (fun _ => .skip fun _ _ => .skip fun _ _ => .ite (fun _ => ?_) fun _ => ?_) fun _ => ?_)
  · exact .skip fun _ _ => .pure (quiet_ofParts _ _ _)
  · exact .skip fun _ _ => .pure (quiet_ofParts _ _ _)
  · exact .skip fun _ _ => .skip fun _ _ => .skip fun _ _ => .pure (quiet_ofParts _ _ _)

/-- `import name = require(…)` names a module as well. It is a declaration and not a call, and leaves no edge. -/
theorem keeps_declaredImport : declaredImport.Keeps s fun d _ => d.stmt.Quiet :=
  .skip fun _ _ => .skip fun _ _ => .skip fun _ _ => .pure (quiet_ofParts _ _ _)

/-- Statements that were declared, without their names. -/
theorem keeps_stmt {p : Parser Declared} (h : p.Keeps s fun d s' => d.stmt.Stands s s') :
    (do return (← p).stmt : Parser Stmt).Keeps s fun stmt s' => stmt.Stands s s' :=
  h.bind fun _ _ _ hd => .pure hd

section Declarations

include hrules

/-- Behind `const` may come an enumeration, which is quiet; all else are variables. -/
theorem keeps_variablesOrEnum : (variablesOrEnum rules).Keeps s fun d s' => d.stmt.Stands s s' := by
  have htail : ∀ kind s₁, s.Leads s₁ → (variableTail rules kind).Keeps s₁ fun d s' => d.stmt.Stands s s' :=
    fun kind s₁ h₁ => (keeps_variableTail hrules kind).from_leads h₁
  refine .step (.refl s) fun _ s₁ h₁ => .ite (fun _ => ?_) fun _ => ?_
  · refine .step h₁ fun _ s₂ h₂ => .step h₂ fun _ s₃ h₃ => .ite (fun _ => ?_) fun _ => htail _ s₃ h₃
    exact (keeps_enumTail rules).imp fun _ s₄ h₄ hd => hd.stands (h₃.trans h₄)
  · refine .step h₁ fun _ s₂ h₂ => .ite (fun _ => htail _ s₂ h₂) fun _ => ?_
    exact .step h₂ fun _ s₃ h₃ => htail _ s₃ h₃

/-- By its keyword, a declaration is one of variables, or it is quiet. -/
theorem keeps_declarationBody (mods : List String) (marks : List Expr) :
    (declarationBody rules mods marks).Keeps s fun d s' => d.stmt.Stands s s' := by
  have hquiet : ∀ {p : Parser Declared} {s₁}, s.Leads s₁ → p.Keeps s₁ (fun d _ => d.stmt.Quiet) →
      p.Keeps s₁ fun d s' => d.stmt.Stands s s' :=
    fun h₁ hp => hp.imp fun _ s₂ h₂ hd => hd.stands (h₁.trans h₂)
  refine .token ?_
  split
  · exact .step (.refl s) fun _ s₁ h₁ => hquiet h₁ (keeps_classDeclaration rules marks)
  · exact .step (.refl s) fun _ s₁ h₁ => hquiet h₁ (keeps_functionDeclaration rules _)
  · refine .step (.refl s) fun _ s₁ h₁ => .step h₁ fun _ s₂ h₂ => .ite (fun _ => ?_) fun _ => keeps_failure
    exact hquiet h₂ (keeps_functionDeclaration rules _)
  · exact .step (.refl s) fun _ s₁ h₁ => .step h₁ fun _ s₂ h₂ => hquiet h₂ (keeps_interfaceTail rules).withReader
  · exact .step (.refl s) fun _ s₁ h₁ => .step h₁ fun _ s₂ h₂ => hquiet h₂ (keeps_aliasTail rules).withReader
  · exact .step (.refl s) fun _ s₁ h₁ => .step h₁ fun _ s₂ h₂ => hquiet h₂ (keeps_enumTail rules).withReader
  iterate 2
    exact .step (.refl s) fun _ s₁ h₁ => .step h₁ fun _ s₂ h₂ => hquiet h₂ (keeps_spaceTail rules _).withReader
  · refine .step (.refl s) fun _ s₁ h₁ => .step h₁ fun _ s₂ h₂ => .step h₂ fun _ s₃ h₃ => .pure ?_
    exact (quiet_ofParts _ _ _).stands h₃
  · exact .step (.refl s) fun _ s₁ h₁ => .step h₁ fun _ s₂ h₂ => hquiet h₂ keeps_declaredImport
  iterate 3
    exact .step (.refl s) fun _ s₁ h₁ => (keeps_variablesOrEnum hrules).from_leads h₁
  · exact keeps_failure

/-- The modifiers of a declaration are passed, so it stands behind them, and from any state before as well. -/
theorem keeps_declaration (marks : List Expr) :
    (declaration rules marks).Keeps s fun d s' => d.stmt.Stands s s' := by
  refine .step (.refl s) fun _ s₁ h₁ => .either h₁ fun mods s₂ h₂ => .step h₂ fun _ s₃ h₃ => .when h₃ fun s₄ h₄ => ?_
  refine .step h₄ fun _ s₅ h₅ => .step h₅ fun _ s₆ h₆ => .step h₆ fun _ s₇ h₇ => Keeps.withReader ?_
  exact (keeps_declarationBody hrules mods marks).from_leads h₇

end Declarations

/-! ## Imports -/

section Imports

variable (h : s₀.Passes "import" s)
include h

/-- What an import declaration answers once its source is read. -/
theorem keeps_importSource (typeOnly : Bool) (names : List ImportName) :
    (do return .importFrom s₀.pos typeOnly names (← sourceTail) : Parser Stmt).Keeps s
      fun stmt s' => stmt.Stands s₀ s' :=
  .step (.refl s) fun source _ h₁ => .pure (Stmt.stands_importFrom typeOnly names source (h.leads_trans h₁))

/-- A default import, names in braces and the whole module may come in front of the source, in the orders that
exist. All of them lead to the same rest, and the edge is placed at the word that was passed at the start. -/
theorem keeps_importClause (whollyType hasDefault : Bool) :
    (importClause s₀.pos whollyType hasDefault).Keeps s fun stmt s' => stmt.Stands s₀ s' := by
  unfold importClause
  extract_lets rest
  have hrest : ∀ names s₁, s.Leads s₁ → (rest names).Keeps s₁ fun stmt s' => stmt.Stands s₀ s' :=
    fun names s₁ h₁ => .step h₁ fun _ s₂ h₂ => keeps_importSource (h.leads_trans h₂) whollyType names
  refine .ite (fun _ => .step (.refl s) fun _ s₁ h₁ => .ite (fun _ => ?_) fun _ => ?_) fun _ => ?_
  · exact .step h₁ fun _ s₂ h₂ => .step h₂ fun names s₃ h₃ => hrest names s₃ h₃
  · exact .step h₁ fun names s₂ h₂ => hrest names s₂ h₂
  · exact .step (.refl s) fun names s₁ h₁ => hrest names s₁ h₁

/-- **An import whose first word is a name or a mark.** Only what follows tells whether `type`, `source` or `defer`
is a mark; where it is not, the next possibility is tried from the state reached so far. An import of types that is
an alias is quiet. -/
theorem keeps_importAfterName (first : String) :
    (importAfterName s₀.pos first).Keeps s fun stmt s' => stmt.Stands s₀ s' := by
  have hclause : ∀ whollyType hasDefault s₁, s.Leads s₁ →
      (importClause s₀.pos whollyType hasDefault).Keeps s₁ fun stmt s' => stmt.Stands s₀ s' :=
    fun _ _ s₁ h₁ => keeps_importClause (h.leads_trans h₁) _ _
  have halias : ∀ s₁, s.Leads s₁ → (do importAliasTail; return .compound [] [] : Parser Stmt).Keeps s₁
      fun stmt s' => stmt.Stands s₀ s' :=
    fun s₁ h₁ => .step h₁ fun _ s₂ h₂ => .pure ((Stmt.quiet_compound [] []).stands (h.leads.trans h₂))
  refine .step (.refl s) fun isTyped s₁ h₁ => ?_
  -- what is left to try where the first word was not `type` or `source` after all
  extract_lets behindSource behindType
  have hbehindSource : ∀ s₂, s.Leads s₂ → (behindSource ()).Keeps s₂ fun stmt s' => stmt.Stands s₀ s' := by
    intro s₂ h₂
    refine .step h₂ fun _ s₃ h₃ => .ite (fun _ => hclause _ _ s₃ h₃) fun _ => .step h₃ fun _ s₄ h₄ => ?_
    exact .ite (fun _ => halias s₄ h₄) fun _ => hclause _ _ s₄ h₄
  have hbehindType : ∀ s₂, s.Leads s₂ → (behindType ()).Keeps s₂ fun stmt s' => stmt.Stands s₀ s' := by
    intro s₂ h₂
    refine .ite (fun _ => .step h₂ fun _ s₃ h₃ => .ite (fun _ => ?_) fun _ => ?_) fun _ => hbehindSource s₂ h₂
    · refine .step h₃ fun _ s₄ h₄ => .step h₄ fun _ s₅ h₅ => keeps_importSource (h.leads_trans h₅) _ _
    · exact hbehindSource s₃ h₃
  refine .ite (fun _ => .step h₁ fun _ s₂ h₂ => .ite (fun _ => ?_) fun _ => ?_) fun _ => hbehindType s₁ h₁
  · refine .step h₂ fun _ s₃ h₃ => .step h₃ fun _ s₄ h₄ => ?_
    exact .ite (fun _ => halias s₄ h₄) fun _ => hclause _ _ s₄ h₄
  · refine .step h₂ fun _ s₃ h₃ => .ite (fun _ => hclause _ _ s₃ h₃) fun _ => hbehindType s₃ h₃

omit h

/-- An import in any of its forms stands where it was read, and its edge starts at its first word. -/
theorem keeps_importDeclaration : importDeclaration.Keeps s fun stmt s' => stmt.Stands s s' := by
  refine .token ((keeps_expectWord "import").bind fun _ s₁ _ h => .token (.ite (fun _ => ?_) fun _ => ?_))
  · exact keeps_importSource h _ _
  refine .ite (fun _ => ?_) fun _ => keeps_importClause h _ _
  exact .step (.refl s₁) fun first s₂ h₂ => keeps_importAfterName (h.leads_trans h₂) first

end Imports

/-! ## Exports -/

/-- With a source, a list of exports is an edge at the word `export`; without one it is quiet. -/
theorem keeps_exportList (h : s₀.Passes "export" s) (whollyType : Bool) :
    (exportList s₀.pos whollyType).Keeps s fun stmt s' => stmt.Stands s₀ s' := by
  refine .step (.refl s) fun _ s₁ h₁ => .step h₁ fun specs s₂ h₂ => .step h₂ fun _ s₃ h₃ => .step h₃ fun _ s₄ h₄ => ?_
  refine .step h₄ fun _ s₅ h₅ => .ite (fun _ => .step h₅ fun source s₆ h₆ => .pure ?_) fun _ => ?_
  · exact Stmt.stands_exportNames _ _ source (h.leads_trans h₆)
  · refine .step h₅ fun _ s₆ h₆ => .step h₆ fun _ s₇ h₇ => .pure ?_
    exact (Stmt.quiet_exportNames _ _ _).stands (h.leads.trans h₇)

/-- All of another module is an edge, whether it gets a name or not. -/
theorem keeps_exportAll (h : s₀.Passes "export" s) (whollyType : Bool) :
    (exportAll s₀.pos whollyType).Keeps s fun stmt s' => stmt.Stands s₀ s' := by
  have hsource : ∀ s₁, s.Leads s₁ → (do
      expectWord "from"
      return .exportAll s₀.pos whollyType (← sourceTail) : Parser Stmt).Keeps s₁ fun stmt s' => stmt.Stands s₀ s' :=
    fun s₁ h₁ => .step h₁ fun _ s₂ h₂ => .step h₂ fun source s₃ h₃ =>
      .pure (Stmt.stands_exportAll _ source (h.leads_trans h₃))
  refine .step (.refl s) fun _ s₁ h₁ => .step h₁ fun _ s₂ h₂ => .ite (fun _ => ?_) fun _ => hsource s₂ h₂
  exact .step h₂ fun name s₃ h₃ => .step h₃ fun _ s₄ h₄ => hsource s₄ h₄

/-- What is exported by default is not searched: a class, a function, an interface or any expression. -/
theorem keeps_exportDefault (rules : Rules) (marks : List Expr) :
    (exportDefault rules marks).Keeps s fun stmt _ => stmt.Quiet := by
  refine .skip fun _ _ => .skip fun _ _ => .skip fun _ _ => .skip fun _ _ => .skip fun _ _ => ?_
  refine .ite (fun _ => .skip fun _ _ => .skip fun _ _ => .skip fun _ _ => .pure ?_) fun _ => ?_
  · exact Stmt.quiet_exportDefault _
  refine .skip fun _ _ => .skip fun _ _ => .ite (fun _ => ?_) fun _ => .ite (fun _ => ?_) fun _ => ?_
  · exact .skip fun _ _ => .skip fun _ _ => .pure (Stmt.quiet_exportDefault _)
  · exact .skip fun _ _ => .skip fun _ _ => .pure (Stmt.quiet_exportDefault _)
  · exact .skip fun _ _ => .skip fun _ _ => .pure (Stmt.quiet_exportDefault _)

/-- Behind `export type`, a list and a star are edges that are about types only, and a declaration is quiet. -/
theorem keeps_exportType (rules : Rules) (h : s₀.Passes "export" s) :
    (exportType rules s₀.pos).Keeps s fun stmt s' => stmt.Stands s₀ s' := by
  refine .step (.refl s) fun _ s₁ h₁ => .ite (fun _ => ?_) fun _ => .ite (fun _ => ?_) fun _ => ?_
  · exact .step h₁ fun _ s₂ h₂ => keeps_exportList (h.leads_trans h₂) true
  · exact .step h₁ fun _ s₂ h₂ => keeps_exportAll (h.leads_trans h₂) true
  · refine .step h₁ fun _ s₂ h₂ => .pure ?_
    exact (Stmt.quiet_exportDeclaration _).stands (h.leads.trans h₂)

/-- **Exports.** The word is passed first, and each form with a source places its edge there. Decorators in front of
it do not count, since nothing in them is searched. -/
theorem keeps_exportDeclaration (rules : Rules) (marks : List Expr) :
    (exportDeclaration rules marks).Keeps s fun stmt s' => stmt.Stands s s' := by
  refine .token ((keeps_expectWord "export").bind fun _ s₁ _ h => ?_)
  refine .step (.refl s₁) fun isTyped s₂ h₂ => .token ?_
  have h := h.leads_trans h₂
  split
  · exact keeps_exportList h false
  · exact keeps_exportAll h false
  · refine .when h.leads fun s₃ h₃ => .step h₃ fun _ s₄ h₄ => .step h₄ fun e s₅ h₅ => .step h₅ fun _ s₆ h₆ => .pure ?_
    exact (Stmt.quiet_exportDeclaration _).stands h₆
  · exact .step h.leads fun _ s₃ h₃ => (keeps_exportDefault rules marks).quiet.from_leads h₃
  · refine .when h.leads fun s₃ h₃ => .step h₃ fun _ s₄ h₄ => .step h₄ fun _ s₅ h₅ => .step h₅ fun _ s₆ h₆ => ?_
    exact .step h₆ fun _ s₇ h₇ => .pure ((Stmt.quiet_compound _ _).stands h₇)
  · exact .ite (fun _ => keeps_exportType rules h) fun _ => keeps_failure
  · refine .step h.leads fun _ s₃ h₃ => .step h₃ fun d s₄ h₄ => .step h₄ fun _ s₅ h₅ => .pure ?_
    exact (Stmt.quiet_exportDeclaration _).stands h₅

/-! ## Statements without edges -/

theorem keeps_jump : jump.Keeps s fun stmt _ => stmt.Quiet :=
  .skip fun _ _ => .skip fun _ s₁ => .when (.refl s₁) fun _ _ => .skip fun _ _ => .pure (Stmt.quiet_compound _ _)

theorem keeps_iteratedTail (rules : Rules) (overKeys : Bool) (init : List Expr) (inits : List Stmt) :
    (iteratedTail rules overKeys init inits).Keeps s fun stmt _ => stmt.Quiet :=
  .skip fun _ _ => .skip fun _ _ => .skip fun _ _ => .pure (Stmt.quiet_compound _ _)

/-- Each part in the head of a loop may be missing, so its rest goes on from two states each time; nothing is found
in any of them. -/
theorem keeps_countedTail (rules : Rules) (init : List Expr) (inits : List Stmt) :
    (countedTail rules init inits).Keeps s fun stmt _ => stmt.Quiet := by
  refine .skip fun _ _ => .skip fun _ _ => ?_
  extract_lets behindTest
  have hbehindTest : ∀ test s₁, (behindTest test).Keeps s₁ fun stmt _ => stmt.Quiet := by
    refine fun test s₁ => .skip fun _ _ => .skip fun _ _ => .ite (fun _ => ?_) fun _ => .skip fun _ _ => ?_
    · exact .skip fun _ _ => .skip fun _ _ => .skip fun _ _ => .pure (Stmt.quiet_compound _ _)
    · exact .skip fun _ _ => .skip fun _ _ => .skip fun _ _ => .pure (Stmt.quiet_compound _ _)
  refine .ite (fun _ => .skip fun test s₁ => hbehindTest test s₁) fun _ => ?_
  exact .skip fun _ _ => .skip fun test s₁ => hbehindTest test s₁

/-- Variables of a loop are part of the loop, and their initial values are not searched, unlike those of other
variables. -/
theorem keeps_loopVariables (rules : Rules) (kind : VariableKind) (isAwait : Bool) :
    (loopVariables rules kind isAwait).Keeps s fun stmt _ => stmt.Quiet := by
  refine .skip fun vs _ => .skip fun _ _ => .ite (fun _ => ?_) fun _ => .skip fun _ s₁ => .ite (fun _ => ?_) fun _ => ?_
  · exact (keeps_iteratedTail rules true _ _).withReader
  · exact (keeps_iteratedTail rules false _ _).withReader
  · exact .when (.refl s₁) fun _ _ => .skip fun _ _ => (keeps_countedTail rules _ _).withReader

theorem keeps_expressionLoop (rules : Rules) (isAwait : Bool) :
    (expressionLoop rules isAwait).Keeps s fun stmt _ => stmt.Quiet := by
  refine .skip fun _ _ => .skip fun _ _ => .skip fun e _ => .skip fun _ _ => .ite (fun _ => ?_) fun _ => ?_
  · exact .skip fun _ _ => .skip fun _ _ => (keeps_iteratedTail rules true _ _).withReader
  refine .skip fun _ s₁ => .ite (fun _ => ?_) fun _ => ?_
  · refine .skip fun _ _ => .skip fun _ _ => .skip fun _ _ => .skip fun _ _ => ?_
    exact (keeps_iteratedTail rules false _ _).withReader
  · exact .when (.refl s₁) fun _ _ => (keeps_countedTail rules _ _).withReader

/-- However the head of a loop starts, the loop is quiet. -/
theorem keeps_forStatement (rules : Rules) : (forStatement rules).Keeps s fun stmt _ => stmt.Quiet := by
  refine .skip fun _ _ => .skip fun isAwait s₁ => ?_
  extract_lets counted head
  have hhead : ∀ s₁, (head ()).Keeps s₁ fun stmt _ => stmt.Quiet := by
    refine fun _ => .skip fun _ _ => Keeps.withReader (.skip fun _ s₂ => .ite (fun _ => ?_) fun _ => ?_)
    · exact .when (.refl s₂) fun _ _ => (keeps_countedTail rules _ _).withReader
    refine .skip fun _ _ => .ite (fun _ => keeps_loopVariables rules _ _) fun _ => ?_
    refine .skip fun _ _ => .ite (fun _ => keeps_loopVariables rules _ _) fun _ => ?_
    refine .skip fun _ _ => .ite (fun _ => .skip fun _ _ => keeps_loopVariables rules _ _) fun _ => ?_
    refine .skip fun _ _ => .ite (fun _ => .skip fun _ _ => keeps_loopVariables rules _ _) fun _ => ?_
    refine .skip fun _ _ => .ite (fun _ => ?_) fun _ => keeps_expressionLoop rules isAwait
    exact .skip fun _ _ => .skip fun _ _ => keeps_loopVariables rules _ _
  refine .ite (fun _ => ?_) fun _ => hhead s₁
  exact .skip fun _ _ => .skip fun _ _ => .skip fun _ _ => hhead _

theorem keeps_doStatement (rules : Rules) : (doStatement rules).Keeps s fun stmt _ => stmt.Quiet :=
  .skip fun _ _ => .skip fun _ _ => .skip fun _ _ => .skip fun _ _ => .skip fun _ _ =>
    .pure (Stmt.quiet_compound _ _)

/-- Neither the condition nor the branches of `if` are searched. -/
theorem keeps_ifStatement (rules : Rules) : (ifStatement rules).Keeps s fun stmt _ => stmt.Quiet := by
  refine .skip fun _ _ => .skip fun _ _ => .skip fun _ _ => .skip fun _ _ => .ite (fun _ => ?_) fun _ => ?_
  · exact .skip fun _ _ => .pure (Stmt.quiet_compound _ _)
  · exact .pure (Stmt.quiet_compound _ _)

theorem keeps_guardedStatement (rules : Rules) : (guardedStatement rules).Keeps s fun stmt _ => stmt.Quiet :=
  .skip fun _ _ => .skip fun _ _ => .skip fun _ _ => .pure (Stmt.quiet_compound _ _)

theorem keeps_switchStatement (rules : Rules) : (switchStatement rules).Keeps s fun stmt _ => stmt.Quiet :=
  .skip fun _ _ => .skip fun _ _ => .skip fun _ _ => .skip fun _ _ => .skip fun _ _ =>
    .pure (Stmt.quiet_compound _ _)

/-- Nor are the blocks of `try`, of which `catch` and `finally` may be missing. -/
theorem keeps_tryStatement (rules : Rules) : (tryStatement rules).Keeps s fun stmt _ => stmt.Quiet := by
  refine .skip fun _ _ => .skip fun tried _ => .skip fun _ _ => ?_
  extract_lets behindCatch
  have hbehindCatch : ∀ caught s₁, (behindCatch caught).Keeps s₁ fun stmt _ => stmt.Quiet := by
    refine fun caught s₁ => .skip fun _ _ => .ite (fun _ => ?_) fun _ => ?_
    · exact .skip fun _ _ => .pure (Stmt.quiet_compound _ _)
    · exact .skip fun _ _ => .pure (Stmt.quiet_compound _ _)
  refine .ite (fun _ => ?_) fun _ => .skip fun _ _ => hbehindCatch _ _
  exact .skip fun _ _ => .skip fun _ _ => .skip fun _ _ => hbehindCatch _ _

theorem keeps_throwStatement (rules : Rules) : (throwStatement rules).Keeps s fun stmt _ => stmt.Quiet :=
  .skip fun _ _ => .skip fun _ _ => .skip fun _ _ => .skip fun _ _ => .skip fun _ _ =>
    .pure (Stmt.quiet_compound _ _)

theorem keeps_functionStatement (rules : Rules) (place : Place) :
    (functionStatement rules place).Keeps s fun stmt _ => stmt.Quiet :=
  .skip fun _ _ => .skip fun _ _ => .skip fun _ _ =>
    (keeps_functionDeclaration rules false).bind fun _ _ _ hd => .pure hd

/-! ## Statements with edges -/

/-- The end of a statement, a semicolon or none, belongs to the statement. -/
theorem keeps_expressionEnd {e : Expr} (he : e.Stands s₀ s) :
    (expressionEnd e).Keeps s fun stmt s' => stmt.Stands s₀ s' :=
  .step (.refl s) fun _ _ h₁ => .pure (Stmt.stands_expr (he.mono (.refl s₀) h₁))

include hrules

/-- A lone variable may turn out to be a label. Then the statement that it names is not searched; otherwise the
expression stands from `s` on. -/
theorem keeps_expressionOrLabel : (expressionOrLabel rules).Keeps s fun stmt s' => stmt.Stands s s' := by
  refine (hrules .expr s).bind fun e s₁ h₁ he => ?_
  have hend : ∀ s₂, s₁.Leads s₂ → (expressionEnd e).Keeps s₂ fun stmt s' => stmt.Stands s s' :=
    fun s₂ h₂ => keeps_expressionEnd (Expr.Stands.mono he (.refl s) h₂)
  refine .ite (fun _ => .step (.refl s₁) fun _ s₂ h₂ => .ite (fun _ => ?_) fun _ => hend s₂ h₂) fun _ => ?_
  · exact .step (h₁.trans h₂) fun _ s₃ h₃ => .pure ((Stmt.quiet_compound _ _).stands h₃)
  · exact hend s₁ (.refl s₁)

/-- What is returned is searched, since `return` may end the body of an arrow function. -/
theorem keeps_returnStatement : (returnStatement rules).Keeps s fun stmt s' => stmt.Stands s s' := by
  refine .step (.refl s) fun _ s₁ h₁ => .step h₁ fun _ s₂ h₂ => .step h₂ fun _ s₃ h₃ => .step h₃ fun _ s₄ h₄ => ?_
  refine .ite (fun _ => ?_) fun _ => (hrules .expr s₄).withReader.bind fun e s₅ _ he => ?_
  · exact .step h₄ fun _ s₅ h₅ => .pure (Stmt.quiet_ret.stands h₅)
  · exact .step (.refl s₅) fun _ s₆ h₆ => .pure (Stmt.stands_ret (Expr.Stands.mono he h₄ h₆))

/-- `let` may be a variable. What follows tells whether it declares others, starts an expression, or stands alone.
-/
theorem keeps_letStatement (place : Place) : (letStatement rules place).Keeps s fun stmt s' => stmt.Stands s s' := by
  refine .step (.refl s) fun _ s₁ h₁ => .step h₁ fun _ s₂ h₂ => ?_
  refine .ite (fun _ => ?_) fun _ => .ite (fun _ => ?_) fun _ => ?_
  · exact (hrules .expr s₂).bind fun e s₃ _ he => keeps_expressionEnd (Expr.Stands.mono he h₂ (.refl s₃))
  · exact .step h₂ fun _ s₃ h₃ => keeps_expressionEnd ((Expr.quiet_name _).stands h₃)
  · exact .step h₂ fun _ s₃ h₃ => .step h₃ fun _ s₄ h₄ => (keeps_stmt (keeps_variableTail hrules _)).from_leads h₄

theorem keeps_decorated (place : Place) : (decorated rules place).Keeps s fun stmt s' => stmt.Stands s s' := by
  refine .step (.refl s) fun marks s₁ h₁ => .step h₁ fun _ s₂ h₂ => .ite (fun _ => ?_) fun _ => ?_
  · exact (keeps_exportDeclaration rules marks).from_leads h₂
  · exact .step h₂ fun _ s₃ h₃ => (keeps_stmt (keeps_declaration hrules marks)).from_leads h₃

/-- Any other word starts a declaration only if what follows says so, and an expression otherwise. Looking for that
does not move, so both are read from the same state. -/
theorem keeps_otherWord (place : Place) (w : String) :
    (otherWord rules place w).Keeps s fun stmt s' => stmt.Stands s s' := by
  have hvariables : ∀ s₁, s.Leads s₁ →
      (do return (← variableTail rules .using).stmt : Parser Stmt).Keeps s₁ fun stmt s' => stmt.Stands s s' :=
    fun s₁ h₁ => (keeps_stmt (keeps_variableTail hrules _)).from_leads h₁
  refine .step (.refl s) fun _ s₁ h₁ => .ite (fun _ => ?_) fun _ => ?_
  · exact (keeps_functionStatement rules place).quiet.from_leads h₁
  refine .step h₁ fun _ s₂ h₂ => .ite (fun _ => ?_) fun _ => ?_
  · exact .step h₂ fun _ s₃ h₃ => .step h₃ fun _ s₄ h₄ => hvariables s₄ h₄
  refine .step h₂ fun _ s₃ h₃ => .ite (fun _ => ?_) fun _ => .step h₃ fun _ s₄ h₄ => .step h₄ fun _ s₅ h₅ => ?_
  · exact .step h₃ fun _ s₄ h₄ => .step h₄ fun _ s₅ h₅ => .step h₅ fun _ s₆ h₆ => hvariables s₆ h₆
  refine .ite (fun _ => ?_) fun _ => (keeps_expressionOrLabel hrules).from_leads h₅
  exact (keeps_stmt (keeps_declaration hrules [])).from_leads h₅

/-- **By its first word**, a statement is one that is not searched, or it is `return`, variables, an import, an
export or an expression, which stand where they were read. -/
theorem keeps_wordStatement (place : Place) (w : String) :
    (wordStatement rules place w).Keeps s fun stmt s' => stmt.Stands s s' := by
  unfold wordStatement
  split
  · exact (keeps_ifStatement rules).quiet
  · exact (keeps_forStatement rules).quiet
  iterate 2 exact (keeps_guardedStatement rules).quiet
  · exact (keeps_doStatement rules).quiet
  iterate 2 exact keeps_jump.quiet
  · exact (keeps_switchStatement rules).quiet
  · exact (keeps_throwStatement rules).quiet
  · exact (keeps_tryStatement rules).quiet
  · exact keeps_returnStatement hrules
  · exact .step (.refl s) fun _ s₁ h₁ => .step h₁ fun _ s₂ h₂ => .pure ((Stmt.quiet_compound _ _).stands h₂)
  · refine .step (.refl s) fun _ s₁ h₁ => (keeps_classDeclaration rules []).bind fun d s₂ h₂ hd => .pure ?_
    exact hd.stands (h₁.trans h₂)
  · exact (keeps_functionStatement rules place).quiet
  · exact keeps_exportDeclaration rules []
  · refine .step (.refl s) fun _ s₁ h₁ => .ite (fun _ => ?_) fun _ => ?_
    · exact (keeps_expressionOrLabel hrules).from_leads h₁
    · exact keeps_importDeclaration.from_leads h₁
  iterate 2 exact .step (.refl s) fun _ s₁ h₁ => (keeps_stmt (keeps_variablesOrEnum hrules)).from_leads h₁
  · exact keeps_letStatement hrules place
  · exact keeps_otherWord hrules place _

/-- Every statement stands where it was read. -/
theorem keeps_statement (place : Place) : (statement rules place).Keeps s fun stmt s' => stmt.Stands s s' := by
  refine .token ?_
  split
  · exact keeps_wordStatement hrules place _
  · exact .step (.refl s) fun _ s₁ h₁ => .pure ((Stmt.quiet_compound _ _).stands h₁)
  · exact .step (.refl s) fun _ s₁ h₁ => .pure ((Stmt.quiet_compound _ _).stands h₁)
  · exact keeps_decorated hrules place
  · exact keeps_expressionOrLabel hrules

end Grammar

end ClientBoundary
