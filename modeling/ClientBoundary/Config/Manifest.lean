import ClientBoundary.Disk
import ClientBoundary.Failure
import ClientBoundary.Json.Reader

/-!
# Manifests

A project depends on the framework whose components are classified here if its manifest lists `next`
among its dependencies.
-/

namespace ClientBoundary

namespace Manifest

/-- The sections of a manifest that list dependencies. -/
def sections : List String := ["dependencies", "devDependencies"]

/-- Whether a manifest lists a package. -/
def lists (manifest : Json) (package : String) : Bool :=
  sections.any fun s => ((manifest.get? s).bind (Json.get? package)).isSome

/-- The manifest of the project at `root`. -/
def load (d : Disk) (root : Path) : Except Failure Json :=
  let file := root.join "package.json"
  match d.readText file with
  | .error e => .error (.misconfigured file e.message)
  | .ok source =>
    match Json.parse? source with
    | some manifest => .ok manifest
    | none => .error (.misconfigured file Failure.badJson)

/-- Whether the project at `root` depends on the framework. -/
def isNextProject (d : Disk) (root : Path) : Except Failure Bool :=
  (load d root).map (lists · "next")

end Manifest

end ClientBoundary
