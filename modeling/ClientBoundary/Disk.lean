import ClientBoundary.Path
import ClientBoundary.Tree

/-!
# Disks

A disk is a file tree with a current directory. Paths are looked up as the system does it: segment
by segment, **following links** up to a limit, with a failure that names its cause.

* `locate` finds the place and node a path leads to;
* `canonical` is the link-free absolute path of that place, `readText` the text of a file there.
-/

namespace ClientBoundary

open Bytes (slash dot)

/-- Why a path cannot be used. -/
inductive DiskError where
  /-- nothing is there -/
  | notFound
  /-- something on the way is no directory -/
  | notDirectory
  /-- a directory cannot be read as a file -/
  | isDirectory
  /-- a name or the path is too long -/
  | nameTooLong
  /-- the links do not come to an end -/
  | tooManyLinks
  /-- the path holds a NUL byte -/
  | nulByte
  /-- the bytes of the file are no text -/
  | notText
deriving DecidableEq, Inhabited

/-- How an error is worded. -/
def DiskError.message : DiskError → String
  | notFound => "No such file or directory (os error 2)"
  | notDirectory => "Not a directory (os error 20)"
  | isDirectory => "Is a directory (os error 21)"
  | nameTooLong => "File name too long (os error 36)"
  | tooManyLinks => "Too many levels of symbolic links (os error 40)"
  | nulByte => "file name contained an unexpected NUL byte"
  | notText => "stream did not contain valid UTF-8"

/-- A file tree with a current directory. -/
structure Disk where
  /-- the tree -/
  tree : Node
  /-- the place of the current directory -/
  cwd : Node.Place

namespace Disk

/-- What a path leads to. -/
structure Found where
  /-- the place -/
  place : Node.Place
  /-- the node there -/
  node : Node

/-- How a search ends. -/
abbrev Search := Except DiskError Found

/-- The longest name in bytes. -/
def maxName : Nat := 255

/-- The longest path in bytes. -/
def maxPath : Nat := 4095

/-- How many links are followed. -/
def maxLinks : Nat := 40

/-- The segments between slashes. -/
def segmentsOf (bytes : Bytes) : List Bytes := Text.cut slash bytes

/-- Follows segments from a place; `onLink` goes on where a link leads elsewhere. Empty segments and
`.` ask for a directory and stay there. -/
def step (tree : Node) (onLink : Node.Place → List Bytes → Search) :
    (place : Node.Place) → List Bytes → Search
  | place, [] =>
    match tree.get? place with
    | some node => .ok ⟨place, node⟩
    | none => .error .notFound
  | place, segment :: rest =>
    match tree.get? place with
    | none => .error .notFound
    | some node =>
      if !node.isDir then .error .notDirectory
      else if segment = [] || segment = [dot] then step tree onLink place rest
      else if segment = [dot, dot] then step tree onLink place.dropLast rest
      else if maxName < segment.length then .error .nameTooLong
      else
        match node.entry? segment with
        | none => .error .notFound
        | some (.link target) => onLink place (segmentsOf target ++ rest)
        | some _ => step tree onLink (place ++ [segment]) rest

/-- Follows segments from a place, through at most `links` links. A link that starts with a slash
starts at the root. -/
def follow (tree : Node) : (links : Nat) → (place : Node.Place) → List Bytes → Search
  | 0 => step tree fun _ _ => .error .tooManyLinks
  | links + 1 => step tree fun place segments =>
    match segments with
    | [] :: _ => follow tree links [] segments
    | _ => follow tree links place segments

/-- The absolute path of a place. -/
def pathOf (place : Node.Place) : Path := Path.ofSteps (.root :: place.map .name)

/-- The current directory as a path. -/
def cwdPath (d : Disk) : Path := pathOf d.cwd

/-- The segments on the way from the root to a path, by way of the current directory where the path
does not start at the root. -/
def wayTo (d : Disk) (p : Path) : List Bytes :=
  if p.isAbsolute then segmentsOf p.bytes else segmentsOf d.cwdPath.bytes ++ segmentsOf p.bytes

/-- What a path leads to, links followed. -/
def locate (d : Disk) (p : Path) : Search :=
  if p.bytes.contains 0 then .error .nulByte
  else if p.bytes = [] then .error .notFound
  else if maxPath < p.bytes.length then .error .nameTooLong
  else follow d.tree maxLinks [] (d.wayTo p)

/-- Whether a path leads to a regular file. -/
def isFile (d : Disk) (p : Path) : Bool :=
  match d.locate p with
  | .ok found => found.node.isFile
  | .error _ => false

/-- Whether a path leads anywhere. -/
def isThere (d : Disk) (p : Path) : Bool := (d.locate p).isOk

/-- The link-free absolute path of what a path leads to. -/
def canonical (d : Disk) (p : Path) : Except DiskError Path := do
  return pathOf (← d.locate p).place

/-- The link-free path, or the path itself if it leads nowhere. -/
def canonicalOr (d : Disk) (p : Path) : Path :=
  match d.canonical p with
  | .ok q => q
  | .error _ => p

/-- The text of the file a path leads to. -/
def readText (d : Disk) (p : Path) : Except DiskError String := do
  match (← d.locate p).node with
  | .file content =>
    match content.text? with
    | some text => return text
    | none => throw .notText
  | _ => throw .isDirectory

end Disk

end ClientBoundary
