import ClientBoundary.Path

/-!
# Extensions

Which files are scripts, which are components, and in what order an import without an extension
tries them.
-/

namespace ClientBoundary

namespace Extension

/-- Extensions of scripts, in the order they are tried. -/
def scripts : List String := ["tsx", "ts", "jsx", "js", "mts", "mjs", "cts", "cjs"]

/-- Extensions of components. -/
def components : List String := ["tsx", "jsx"]

/-- The extension of a file that should be there and is not. -/
def fallback : String := "tsx"

/-- The extensions of the sources that are compiled to a file with this extension. -/
def sources : String → List String
  | "js" => ["ts", "tsx"]
  | "jsx" => ["tsx"]
  | "mjs" => ["mts"]
  | "cjs" => ["cts"]
  | _ => []

end Extension

namespace Path

/-- Whether the file has one of some extensions. -/
def hasExtension (p : Path) (exts : List String) : Bool :=
  match p.extension? with
  | some ext => exts.contains ext
  | none => false

/-- Whether the file is a script by its name. -/
def isScript (p : Path) : Bool := p.hasExtension Extension.scripts

/-- Whether the file is a component by its name. -/
def isComponent (p : Path) : Bool := p.hasExtension Extension.components

end Path

end ClientBoundary
