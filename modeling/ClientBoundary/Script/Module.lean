import ClientBoundary.Script.Edge
import ClientBoundary.Script.Grammar

/-!
# Modules

What matters about a source text: its **directives** and its **edges**.
-/

namespace ClientBoundary

/-- What is known about a source text. -/
structure Module where
  /-- the leading string statements -/
  directives : List String
  /-- the modules it names -/
  edges : List Edge
deriving DecidableEq, Inhabited

namespace Module

/-- Whether the text starts with this directive among others. -/
def hasDirective (m : Module) (directive : String) : Bool := m.directives.contains directive

/-- The directive that makes a component a client component. -/
def clientDirective : String := "use client"

/-- Whether the text asks to run on the client. -/
def isClient (m : Module) : Bool := m.hasDirective clientDirective

/-- What matters about a program. -/
def ofProgram (p : Program) : Module := ⟨p.directives, p.edges⟩

/-- Reads a source text in the dialect of its file; `none` if it is not well formed. -/
def parse? (file : Path) (source : String) : Option Module :=
  (Grammar.program? (.ofPath file) source.toList).map ofProgram

end Module

end ClientBoundary
