import ClientBoundary.Config.Aliases
import ClientBoundary.Config.Options
import ClientBoundary.Config.Repository
import ClientBoundary.Failure
import ClientBoundary.Resolve

/-!
# Opening a project

Options name a project by its root, or leave it to the repository around the current directory.
Opening it settles the root and loads its aliases.
-/

namespace ClientBoundary

/-- Why a scan cannot be done at all. -/
inductive ScanError where
  /-- a file that it needs cannot be used -/
  | failure (f : Failure)
  /-- no directory above is the root of a repository -/
  | noRepository
  /-- no root is settled yet -/
  | notInitialized
  /-- the project does not depend on the framework -/
  | notNextProject (root : Path)
  /-- the root cannot be walked -/
  | unwalkable (root : Path) (reason : DiskError)
  /-- ignore files above the root are not well formed -/
  | badIgnoreFiles (errors : List String)
deriving DecidableEq, Inhabited

/-- How an error is worded. -/
def ScanError.message : ScanError → String
  | failure f => f.message
  | noRepository => "Could not find .git directory in any parent folder"
  | notInitialized => "Config not initialized - call initialize() first"
  | notNextProject root => root.shown ++ " is not a Next.js project"
  | unwalkable root reason =>
    root.shown ++ ": IO error for operation on " ++ root.shown ++ ": " ++ reason.message
  | badIgnoreFiles errors => String.intercalate "\n" errors

/-- Options with what was loaded for them. -/
structure Config where
  /-- the options; their root is the one that is used -/
  options : Options
  /-- the aliases of the project -/
  aliases : AliasTable := .empty

namespace Config

/-- The root, once it is settled. -/
def root (c : Config) : Except ScanError Path :=
  match c.options.root with
  | some root => .ok root
  | none => .error .notInitialized

/-- The root that is used: the given one without links, or that of the repository. -/
def chooseRoot (c : Config) (d : Disk) : Except ScanError Path :=
  match c.options.root, d.repositoryRoot? with
  | some root, _ => .ok (d.canonicalOr root)
  | none, some root => .ok root
  | none, none => .error .noRepository

/-- Settles the root and loads the aliases. -/
def settle (c : Config) (d : Disk) : Except ScanError Config := do
  let root ← c.chooseRoot d
  return { options := { c.options with root := some root }, aliases := .ofProject d root }

end Config

end ClientBoundary
