import ClientBoundary.Extension
import ClientBoundary.Walk

/-!
# Component files

The component files of a project: of the paths of a walk, those that lead to a regular file and have
the name of a component. They are listed without links, each once, in the order of paths, so the order
of the walk does not show.
-/

namespace ClientBoundary

namespace Collect

/-- Paths with `p` in its place, unless the place is taken. -/
def insert (p : Path) : List Path → List Path
  | [] => [p]
  | q :: rest =>
    match p.order q with
    | .lt => p :: q :: rest
    | .eq => q :: rest
    | .gt => q :: insert p rest

/-- Paths in order, each once. -/
def sorted (paths : List Path) : List Path := paths.foldl (fun done p => insert p done) []

/-- Whether a path of a walk is a component file. -/
def isComponentFile (d : Disk) (p : Path) : Bool := d.isFile p && p.isComponent

/-- The component files among the paths of a walk. -/
def ofPaths (d : Disk) (paths : List Path) : List Path :=
  sorted ((paths.filter (isComponentFile d)).map d.canonicalOr)

/-- The component files of the project at `root`. -/
def components (d : Disk) (root : Path) (exclude : List String) : Except ScanError (List Path) :=
  (Walk.paths ⟨d, exclude⟩ root).map (ofPaths d)

end Collect

end ClientBoundary
