import ClientBoundary.Disk

/-!
# Repositories

A directory that has an entry `.git` is the root of a repository.
-/

namespace ClientBoundary

namespace Disk

/-- A place and all places above it, nearest first. -/
def upward (place : Node.Place) : List Node.Place :=
  (List.range (place.length + 1)).reverse.map place.take

/-- The root of the repository around the current directory. -/
def repositoryRoot? (d : Disk) : Option Path :=
  (upward d.cwd).map pathOf |>.find? fun p => d.isThere (p.join ".git")

end Disk

end ClientBoundary
