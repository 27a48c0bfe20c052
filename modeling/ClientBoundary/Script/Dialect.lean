import ClientBoundary.Path

/-!
# Dialects

The extension of a file decides how its text is read: as a **module** or as a script, with or
without **type annotations**, with or without **elements** (the angle-bracket markup of components).
-/

namespace ClientBoundary

/-- How a source text is read. -/
structure Dialect where
  /-- type annotations are part of the grammar -/
  typed : Bool
  /-- elements are part of the grammar -/
  elements : Bool
  /-- `await` is reserved at the top level, and the comments of old scripts are not known -/
  isModule : Bool
deriving DecidableEq, Inhabited

namespace Dialect

/-- Extensions of typed sources. -/
def typedExtensions : List String := ["ts", "tsx", "mts", "cts"]

/-- Extensions of sources with elements. -/
def elementExtensions : List String := ["tsx", "jsx", "js", "mjs", "cjs"]

/-- Extensions of scripts. -/
def scriptExtensions : List String := ["cjs", "cts"]

/-- The dialect of an extension; a file without one is a plain module. -/
def ofExtension? : Option String → Dialect
  | none => { typed := false, elements := false, isModule := true }
  | some ext =>
    { typed := typedExtensions.contains ext
      elements := elementExtensions.contains ext
      isModule := !scriptExtensions.contains ext }

/-- The dialect of a file. -/
def ofPath (p : Path) : Dialect := ofExtension? p.extension?

end Dialect

end ClientBoundary
