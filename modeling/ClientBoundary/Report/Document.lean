import ClientBoundary.Json.Writer
import ClientBoundary.Scan.Result

/-!
# Reports for programs

The result of a scan as a JSON document. Paths are written as they are shown below the root of the
project; only the importers of edges that were passed over have to be texts themselves, and a document
that has another one breaks off there.
-/

namespace ClientBoundary

namespace ScanResult

variable (r : ScanResult)

/-- A path as it is written in the document. -/
def keyOf (p : Path) : String := (p.seenBelow r.root).shown

/-- The classified files by their paths. -/
def componentsJson (l : Ledger) : Json :=
  .ofMembers (l.snapshot.map fun (p, c) => (r.keyOf p, .string c.name))

/-- A file with what went wrong. -/
def failureJson (p : Path) (f : Failure) : Json :=
  .object [("path", .string (r.keyOf p)), ("error", .string f.message)]

/-- An edge that was passed over. -/
def skippedJson (e : SkippedEdge) : Json :=
  .object
    [("from_file", .string e.importer.shown), ("specifier", .string e.specifier),
     ("reason", .string e.reason.name)]

/-- The members of the document in front of the edges that were passed over. -/
def leadingMembers (l : Ledger) : List (String × Json) :=
  [("root", .string r.root.shown),
   ("files_analyzed", .number (toString r.filesAnalyzed)),
   ("components", r.componentsJson l),
   ("failures", .array (r.failures.map fun (p, f) => r.failureJson p f)),
   ("dead_edges", .array (r.warnings.map fun f => r.failureJson f.path f))]

/-- The document. -/
def json (l : Ledger) : Json :=
  .object (r.leadingMembers l ++ [("skipped_edges", .array (r.skippedEdges.map skippedJson))])

/-- The document as text, if all importers in it are texts. -/
def document? (l : Ledger) : Option String :=
  if r.skippedEdges.all (·.importer.isText) then some ((r.json l).pretty ++ "\n") else none

/-- What is written of a document before the first importer that is no text. -/
def fragment (l : Ledger) : String :=
  let done := r.skippedEdges.takeWhile (·.importer.isText)
  let row (level : Nat) (part : String) := part ++ "," ++ Json.newline level
  "\x7b" ++ Json.newline 1 ++ String.join ((Json.prettyMembers 1 (r.leadingMembers l)).map (row 1)) ++
    "\"skipped_edges\": [" ++ Json.newline 2 ++
    String.join ((Json.prettyItems 2 (done.map skippedJson)).map (row 2)) ++
    "\x7b" ++ Json.newline 3 ++ "\"from_file\": "

/-- What is said about an importer that is no text. -/
def notText : String := "path contains invalid UTF-8 characters"

end ScanResult

end ClientBoundary
