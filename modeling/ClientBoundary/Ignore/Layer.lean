import ClientBoundary.Disk
import ClientBoundary.Ignore.Pattern

/-!
# Layers of ignore files

Every directory on the way to an entry is a layer with up to three ignore files. Files of one kind are
asked **from the inside out** up to the first that has a verdict; `.ignore` files go before `.gitignore`
files, and these before the exclude file of the repository. The last two kinds count only inside a
repository, and only up to its root.

Git knows one file more, the **global** excludes of a user, which would be asked last. Where it lies is
said by the environment and by the configuration of the user, and a disk holds neither: it is left out, as
if it were empty.
-/

namespace ClientBoundary

open Bytes (slash dot)

/-- What a directory says about entries below it. -/
structure Layer where
  /-- the directory, as the walk writes it -/
  directory : Path
  /-- the directory lies above the root of the walk -/
  isAbove : Bool
  /-- patterns of `.ignore` -/
  ignore : List Pattern
  /-- patterns of `.gitignore` -/
  gitIgnore : List Pattern
  /-- patterns of the exclude file -/
  exclude : List Pattern
  /-- the directory is the root of a repository -/
  isRepository : Bool

/-- An entry that a walk meets. -/
structure Entry where
  /-- the path, as the walk writes it -/
  path : Path
  /-- the path without links -/
  place : Path
  /-- it is a directory -/
  isDirectory : Bool

namespace Layer

/-! ## Loading -/

/-- The patterns of a file with what is wrong in it; a file that is not there has none. -/
def readFile (d : Disk) (file : Path) : List Pattern × List String :=
  match d.locate file with
  | .ok ⟨_, .file content⟩ =>
    let (patterns, errors) := Pattern.ofContent content
    (patterns, errors.map fun e => file.shown ++ ": " ++ e.message)
  | _ => ([], [])

/-- The first line of a file; `none` if the file is empty. -/
def firstLine? (d : Disk) (file : Path) : Except DiskError (Option (List Char)) := do
  match (← d.locate file).node with
  | .file content =>
    match Pattern.readableLines content with
    | ([], true) => throw .notText
    | (lines, _) => return lines.head?
  | _ => throw .isDirectory

/-- A failure to read a file, as it is worded. -/
def unreadable (file : Path) (e : DiskError) : String := file.shown ++ ": " ++ e.message

/-- The directory that a work tree shares with its repository, if `.git` is a file that leads there. -/
def sharedDirectory? (d : Disk) (git : Path) : Except String (Option Path) :=
  match firstLine? d git with
  | .error e => .error (unreadable git e)
  | .ok line =>
    match line.bind (Text.stripLead? "gitdir: ".toList) with
    | none => .ok none
    | some target =>
      let home : Path := ⟨String.ofList target⟩
      let pointer := home.join "commondir"
      if !d.isThere pointer then .ok none
      else
        match firstLine? d pointer with
        | .error e => .error (unreadable pointer e)
        | .ok none => .ok none
        | .ok (some shared) =>
          if shared.head? = some '.' then .ok (some (home.join (String.ofList shared)))
          else .ok (some ⟨String.ofList shared⟩)

/-- The patterns of the exclude file of a repository, with what is wrong. -/
def readExclude (d : Disk) (git : Path) : List Pattern × List String :=
  if d.isFile git then
    match sharedDirectory? d git with
    | .ok (some shared) => readFile d (shared.join "info/exclude")
    | .ok none => ([], [])
    | .error e => ([], [e])
  else readFile d (git.join "info/exclude")

/-- The layer of a directory, with what is wrong in its files. -/
def load (d : Disk) (isAbove : Bool) (directory : Path) : Layer × List String :=
  let git := directory.join ".git"
  let (ignore, errors₁) := readFile d (directory.join ".ignore")
  let (gitIgnore, errors₂) := readFile d (directory.join ".gitignore")
  let (exclude, errors₃) := readExclude d git
  let isRepository := d.isThere git || d.isThere (directory.join ".jj")
  ({ directory, isAbove, ignore, gitIgnore, exclude, isRepository }, errors₁ ++ errors₂ ++ errors₃)

/-! ## Asking -/

/-- Bytes without one dot and slash in front. -/
def dropHere : Bytes → Bytes
  | dot :: slash :: rest => rest
  | bytes => bytes

/-- Bytes without one slash in front. -/
def dropSlash : Bytes → Bytes
  | slash :: rest => rest
  | bytes => bytes

/-- A path as the patterns of a directory see it: behind the directory. -/
def seenFrom (directory path : Path) : Bytes :=
  let path := dropHere (dropHere path.bytes)
  let lead := dropHere directory.bytes
  if Path.same ⟨lead⟩ ⟨[dot]⟩ || !path.contains slash then path
  else
    match Text.stripLead? lead path with
    | some rest => dropSlash rest
    | none => path

/-- What patterns of a layer say about an entry. -/
def ask (l : Layer) (e : Entry) (patterns : List Pattern) : Option Verdict :=
  let path := if l.isAbove then e.place else e.path
  Pattern.verdict? patterns (seenFrom l.directory path) e.isDirectory

/-- Layers up to the first that is the root of a repository; none if there is none. -/
def inRepository : List Layer → List Layer
  | [] => []
  | l :: rest =>
    if l.isRepository then [l]
    else
      match inRepository rest with
      | [] => []
      | outer => l :: outer

/-- What layers, innermost first, say about an entry. -/
def verdict? (layers : List Layer) (e : Entry) : Option Verdict :=
  let tracked := inRepository layers
  (layers.findSome? fun l => l.ask e l.ignore) <|>
    (tracked.findSome? fun l => l.ask e l.gitIgnore) <|>
    (tracked.findSome? fun l => l.ask e l.exclude)

/-- Whether layers ignore an entry. -/
def ignores (layers : List Layer) (e : Entry) : Bool := verdict? layers e = some .ignore

end Layer

end ClientBoundary
