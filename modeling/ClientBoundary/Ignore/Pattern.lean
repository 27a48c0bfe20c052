import ClientBoundary.Ignore.Glob
import ClientBoundary.Text.Blank
import ClientBoundary.Text.Split
import ClientBoundary.Tree

/-!
# Ignore files

An ignore file has one pattern a line. A pattern is a glob with three marks: an exclamation mark in
front makes it **keep** what it describes, a slash in front **anchors** it to the directory of the file,
and a slash at the end lets it describe **directories only**. Of the patterns that describe a path the
last one counts.
-/

namespace ClientBoundary

/-- What patterns say about a path. -/
inductive Verdict where
  | ignore
  | keep
deriving DecidableEq, Inhabited

/-- A line of an ignore file. -/
structure Pattern where
  /-- the paths it describes -/
  glob : Glob
  /-- what it says about them -/
  verdict : Verdict
  /-- it describes directories only -/
  directoryOnly : Bool

/-- What is wrong in an ignore file. -/
inductive PatternError where
  /-- a line is no pattern -/
  | badGlob (line : Nat) (text : String) (reason : GlobError)
  /-- a line is no text -/
  | notText (line : Nat)
deriving DecidableEq

/-- How an error is worded. -/
def PatternError.message : PatternError → String
  | badGlob line text reason =>
    "line " ++ toString line ++ ": error parsing glob '" ++ text ++ "': " ++ reason.message
  | notText line => "line " ++ toString line ++ ": stream did not contain valid UTF-8"

namespace Pattern

/-! ## Lines -/

/-- A line without blanks at its end. A blank behind a backslash stays, and then so do all. -/
def trimLine (line : List Char) : List Char :=
  match line.reverse with
  | ' ' :: '\\' :: _ => line
  | _ => Text.dropEndWhile Text.isBlank line

/-- Takes the mark of a pattern that keeps. A mark behind a backslash is part of the glob. -/
def takeKeep : List Char → Verdict × List Char
  | '!' :: rest => (.keep, rest)
  | '\\' :: '!' :: rest => (.ignore, '!' :: rest)
  | '\\' :: '#' :: rest => (.ignore, '#' :: rest)
  | line => (.ignore, line)

/-- Takes the slash of a pattern that is anchored. -/
def takeAnchor : List Char → Bool × List Char
  | '/' :: rest => (true, rest)
  | line => (false, line)

/-- Takes the slash of a pattern for directories only, with a backslash before it. -/
def takeDirectory (line : List Char) : Bool × List Char :=
  match line.reverse with
  | '/' :: '\\' :: rest | '/' :: rest => (true, rest.reverse)
  | _ => (false, line)

/-- The glob of a pattern. One without any slash describes entries at every depth, and two stars at the
end do not describe the directory before them. -/
def globText (anchored : Bool) (line : List Char) : List Char :=
  let text :=
    if anchored || line.contains '/' || line == ['*', '*'] then line else '*' :: '*' :: '/' :: line
  if "/**".toList.isSuffixOf text then text ++ ['/', '*'] else text

/-- Reads a line. An empty line and a comment are no patterns. -/
def ofLine (number : Nat) (line : List Char) : Except PatternError (Option Pattern) :=
  if line.head? = some '#' then .ok none
  else
    let line := trimLine line
    if line.isEmpty then .ok none
    else
      let (verdict, body) := takeKeep line
      let (anchored, body) := takeAnchor body
      let (directoryOnly, body) := takeDirectory body
      match Glob.parse (globText anchored body) with
      | .ok glob => .ok (some { glob, verdict, directoryOnly })
      | .error e => .error (.badGlob number (String.ofList line) e)

/-! ## Files -/

/-- A line without the return before its end. -/
def dropReturn (line : List Char) : List Char :=
  match line.reverse with
  | '\r' :: rest => rest.reverse
  | _ => line

/-- The lines of a text. -/
def linesOf (text : String) : List (List Char) :=
  let pieces := Text.cut '\n' text.toList
  pieces.dropLast.map dropReturn ++ (pieces.getLast?.filter (!·.isEmpty)).toList

/-- The lines of a content up to the first one that is no text, and whether there is such a line. -/
def readableLines (content : Content) : List (List Char) × Bool :=
  if content.isText then (linesOf content.lead, false)
  else ((Text.cut '\n' content.lead.toList).dropLast.map dropReturn, true)

/-- Reads numbered lines: patterns, last one first, and errors, first one first. -/
def readLines : (number : Nat) → (patterns : List Pattern) → List (List Char) →
    List Pattern × List PatternError
  | _, patterns, [] => (patterns, [])
  | number, patterns, line :: rest =>
    match ofLine number line with
    | .ok p => readLines (number + 1) (p.toList ++ patterns) rest
    | .error e =>
      let (patterns, errors) := readLines (number + 1) patterns rest
      (patterns, e :: errors)

/-- Lines without the byte order mark that the first may start with. -/
def dropMark : List (List Char) → List (List Char)
  | [] => []
  | line :: rest => line.dropWhile (·.toNat == 0xFEFF) :: rest

/-- The patterns of an ignore file, last one first, with what is wrong in it. A line that is no text ends
the file; if nothing else is wrong, that is not an error. -/
def ofContent (content : Content) : List Pattern × List PatternError :=
  let (lines, cut) := readableLines content
  let (patterns, errors) := readLines 1 [] (dropMark lines)
  (patterns, if cut && !errors.isEmpty then errors ++ [.notText (lines.length + 1)] else errors)

/-! ## Verdicts -/

/-- Whether a pattern describes a path. -/
def describes (p : Pattern) (path : Bytes) (isDirectory : Bool) : Bool :=
  (!p.directoryOnly || isDirectory) && p.glob.covers path

/-- What patterns, last one first, say about a path. -/
def verdict? (patterns : List Pattern) (path : Bytes) (isDirectory : Bool) : Option Verdict :=
  (patterns.find? (·.describes path isDirectory)).map (·.verdict)

end Pattern

end ClientBoundary
