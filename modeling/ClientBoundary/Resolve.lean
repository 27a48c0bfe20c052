import ClientBoundary.Alias
import ClientBoundary.Disk
import ClientBoundary.Extension

/-!
# Resolution

The file that an import means. A specifier is **relative** (`./x`), **anchored** at the project root
(`/x`), or an **alias**; any other names a package and means no file here. Each of them gives one or
more base paths, and each base a list of candidates, of which the first that is a file wins. Where
none is, the edge is dead and means the file that should have been there.

`Memo` remembers answers by importing file and specifier.
-/

namespace ClientBoundary

/-- What a project's imports are resolved against. -/
structure Project where
  /-- the root directory -/
  root : Path
  /-- the aliases -/
  aliases : AliasTable
deriving Inhabited

namespace Resolve

/-! ## Candidates -/

/-- The files an import of `base` may mean beside `base` itself, in order: sources that compile to
it, files that extend its name, and index files in it. -/
def candidates (base : Path) : List Path :=
  (Extension.sources (base.extension?.getD "")).map base.withExtension ++
    Extension.scripts.map (fun ext => base.appendShown ("." ++ ext)) ++
    Extension.scripts.map (fun ext => base.join (Bytes.ofText ("index." ++ ext)))

/-- What is found at a base path. -/
inductive Finding where
  /-- a script -/
  | script (path : Path)
  /-- a file that is no script -/
  | asset
  /-- nothing -/
  | missing
deriving DecidableEq, Inhabited

/-- Looks for the file a base path means. -/
def probe (d : Disk) (base : Path) : Finding :=
  if d.isFile base then
    if base.isScript then .script (d.canonicalOr base) else .asset
  else
    match (candidates base).find? d.isFile with
    | some p => .script (d.canonicalOr p)
    | none => .missing

/-- The file that should have been at a base path. -/
def fallback (base : Path) : Path := base.appendShown ("." ++ Extension.fallback)

/-- Goes through base paths up to the first that leads to a file. -/
def firstOf (d : Disk) (otherwise : Option Path) : List Path → Option Path
  | [] => otherwise
  | base :: rest =>
    match probe d base with
    | .script p => some p
    | .asset => none
    | .missing => firstOf d otherwise rest

/-! ## Base paths -/

/-- Whether a specifier is relative to the importing file. -/
def isRelative (specifier : String) : Bool :=
  specifier == "." || specifier == ".." || ['.', '/'].isPrefixOf specifier.toList ||
    ['.', '.', '/'].isPrefixOf specifier.toList

/-- The base path of an alias target. -/
def aliasBase (target : Path) (rest : String) : Path :=
  if rest = "" then target.clean else (target.join rest).clean

/-- The base paths of a specifier, best first; `none` for a package. -/
def bases? (project : Project) (importer : Path) (specifier : String) : Option (List Path) :=
  if isRelative specifier then
    some [((importer.parent?.getD project.root).join specifier).clean]
  else
    match specifier.toList with
    | '/' :: rest => some [(project.root.join (String.ofList rest)).clean]
    | _ =>
      (project.aliases.lookup specifier).map fun (rule, rest) =>
        rule.targets.map (aliasBase · rest)

/-- The file that an import means. -/
def target? (d : Disk) (project : Project) (importer : Path) (specifier : String) : Option Path :=
  match bases? project importer specifier with
  | some bases => firstOf d (bases.head?.map fallback) bases
  | none => none

end Resolve

/-! ## Memo -/

/-- Answers by the place of the importing file and the specifier. -/
structure Memo where
  /-- the answers, last one first -/
  entries : List ((List Step × String) × Option Path)
deriving Inhabited

namespace Memo

/-- No answers. -/
def empty : Memo := ⟨[]⟩

/-- The number of answers. -/
def size (m : Memo) : Nat := m.entries.length

/-- An answer that was given before. -/
def find? (m : Memo) (importer : Path) (specifier : String) : Option (Option Path) :=
  m.entries.lookup (importer.steps, specifier)

/-- Remembers an answer. -/
def add (m : Memo) (importer : Path) (specifier : String) (answer : Option Path) : Memo :=
  ⟨((importer.steps, specifier), answer) :: m.entries⟩

/-- Resolves an import once: an answer that was given before is given again. -/
def resolve (d : Disk) (project : Project) (importer : Path) (specifier : String) (m : Memo) :
    Option Path × Memo :=
  match m.find? importer specifier with
  | some answer => (answer, m)
  | none =>
    let answer := Resolve.target? d project importer specifier
    (answer, m.add importer specifier answer)

end Memo

end ClientBoundary
