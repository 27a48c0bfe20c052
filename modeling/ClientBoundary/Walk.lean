import ClientBoundary.Config.Project
import ClientBoundary.Ignore.Layer

/-!
# Walks

A walk lists a root and all that lies below it, except what ignore files leave out and what lies in
excluded directories. Links are listed and not followed; only a root that is a link is. The root itself
is never left out.

The ignore files are those of the layers; the global excludes of a user are not among them, so a walk lists
what it lists for a user who has none.
-/

namespace ClientBoundary

/-- What a walk goes by. -/
structure Walk where
  /-- the disk -/
  disk : Disk
  /-- names of directories that are passed over -/
  exclude : List String

namespace Walk

variable (w : Walk)

/-- Whether a walk passes over an entry with a name. -/
def passes (layers : List Layer) (name : Bytes) (e : Entry) : Bool :=
  Layer.ignores layers e || (e.isDirectory && w.exclude.contains name.shown)

mutual

/-- The paths below a node at a path, inside of layers. -/
def below (layers : List Layer) (path place : Path) : Node → List Path
  | .dir entries => among ((Layer.load w.disk false path).1 :: layers) path place entries
  | .file _ | .link _ => []

/-- The paths of entries of a directory and below them. -/
def among (layers : List Layer) (path place : Path) : List (Bytes × Node) → List Path
  | [] => []
  | (name, node) :: rest =>
    let e : Entry := ⟨path.join name, place.join name, node.isDir⟩
    let here :=
      if w.passes layers name e then [] else e.path :: below layers e.path e.place node
    here ++ among layers path place rest

end

/-- The layers of the directories above a place, innermost first, with what is wrong in their files. -/
def layersAbove (place : Node.Place) : List (Layer × List String) :=
  if place.isEmpty then []
  else (Disk.upward place.dropLast).map fun up => Layer.load w.disk true (Disk.pathOf up)

/-- The paths of a walk. A dash stands for an input that is no directory and has none. -/
def paths (root : Path) : Except ScanError (List Path) :=
  if root.same ⟨"-"⟩ then .ok []
  else
    match w.disk.locate root with
    | .error e => .error (.unwalkable root e)
    | .ok found =>
      if !found.node.isDir then .ok [root]
      else
        let above := w.layersAbove found.place
        let errors := (above.map (·.2)).reverse.flatten
        if !errors.isEmpty then .error (.badIgnoreFiles errors)
        else .ok (root :: w.below (above.map (·.1)) root (Disk.pathOf found.place) found.node)

end Walk

end ClientBoundary
