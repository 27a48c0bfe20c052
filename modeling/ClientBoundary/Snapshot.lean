import ClientBoundary.Command

/-!
# Snapshots

Takes the part of the real disk that a command works on: all that lies below the outermost repository
around the current directory, the root and the file that are asked for, and of the directories above
them what concerns repositories and ignore files. Of files that are never read only the names are taken,
and all names come as texts.
-/

namespace ClientBoundary

namespace Snapshot

/-! ## What is taken -/

/-- Entries that concern repositories and ignore files. -/
def marks : List String := [".git", ".jj", ".ignore", ".gitignore"]

/-- Files that are read beside scripts. -/
def documents : List String :=
  ["package.json", "exclude", "commondir"] ++ AliasTable.configNames ++ marks

/-- Whether a file with a name is read. -/
def isRead (name : String) : Bool := Path.isScript ⟨name⟩ || documents.contains name

/-- Whether an entry is taken from a directory with a name. -/
def isTaken (directory name : String) : Bool :=
  directory != ".git" || ["info", "commondir"].contains name

/-- More than the depth of any directory. -/
def maxDepth : Nat := Disk.maxPath

/-- The names on the way to an absolute path. -/
def placeOf (path : String) : Node.Place := (Disk.segmentsOf path).filter (!·.isEmpty)

/-! ## Taking it -/

/-- Does something, or nothing where the disk does not let it. -/
def attempt {α : Type} (action : IO α) : IO (Option α) := do
  try
    return some (← action)
  catch _ =>
    return none

/-- The node of an entry, down to a depth. A link leads to where it ends; if it ends nowhere it is
left out. -/
def node? : (depth : Nat) → IO.FS.DirEntry → IO (Option Node)
  | 0, _ => return none
  | depth + 1, e => attempt do
    match (← e.path.symlinkMetadata).type with
    | .dir =>
      let found ← (← e.path.readDir).toList.filterMapM fun inner => do
        if isTaken e.fileName inner.fileName then
          return (← node? depth inner).map fun n => (Bytes.ofText inner.fileName, n)
        else return none
      return .dir found
    | .symlink => return .link (← IO.FS.realPath e.path).toString
    | .file =>
      if isRead e.fileName then return .file (.ofBytes (← IO.FS.readBinFile e.path))
      else return .file (.ofText "")
    | .other => return .dir []

/-- The entry at a place. -/
def entryAt (place : Node.Place) : IO.FS.DirEntry :=
  ⟨(Disk.pathOf place.dropLast).shown, (place.getLast?.getD ".").shown⟩

/-- The tree with what is at a place on the real disk. -/
def take (tree : Node) (place : Node.Place) : IO Node := do
  match ← node? maxDepth (entryAt place) with
  | some n => return tree.put place n
  | none => return tree

/-- Whether something is at a place on the real disk. -/
def isThere (place : Node.Place) : IO Bool := (entryAt place).path.pathExists

/-- The outermost repository around a place, or the place. -/
def topOf (place : Node.Place) : IO Node.Place := do
  let around ← (Disk.upward place).filterM fun up => isThere (up ++ [Bytes.ofText ".git"])
  return around.getLast?.getD place

/-- The tree with the marks of the directories above a place. -/
def takeAbove (tree : Node) (place : Node.Place) : IO Node :=
  ((Disk.upward place).drop 1).foldlM
    (fun tree up => marks.foldlM (fun tree name => take tree (up ++ [Bytes.ofText name])) tree) tree

/-- The places that a command is about. -/
def places (c : Command) : IO (List Node.Place) := do
  let named := c.options.root.toList ++ c.file?.toList
  let real ← (⟨"."⟩ :: named).filterMapM fun (p : Path) => attempt (IO.FS.realPath p.shown)
  return real.map fun p => placeOf p.toString

/-- The disk that a command works on. -/
def disk (c : Command) : IO Disk := do
  let here := placeOf (← IO.FS.realPath ".").toString
  let tops ← (← places c).mapM topOf
  let tree ← tops.eraseDups.foldlM
    (fun tree top => do
      if (tree.get? top).isSome then return tree else take (← takeAbove tree top) top)
    (Node.dir [])
  return ⟨tree, here⟩

end Snapshot

end ClientBoundary
