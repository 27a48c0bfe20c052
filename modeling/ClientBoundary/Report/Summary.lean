import ClientBoundary.Report.Style
import ClientBoundary.Scan.Result

/-!
# Reports to read

The summary of a scan lists the client components with the reason why they are client components, the
files that could not be used and the edges that lead nowhere, and ends with the counts. Paths are shown
from the current directory.
-/

namespace ClientBoundary

/-- Why a file is a client component. -/
inductive ClientTag where
  /-- it has the directive -/
  | directive
  /-- a client component imports it -/
  | imported
deriving DecidableEq, Inhabited

/-- How reports are shown. -/
structure Display where
  /-- styles are on -/
  styled : Bool
  /-- the current directory -/
  here : Path

namespace Display

variable (v : Display)

/-- Text in a style. -/
def paint (s : Style) (text : String) : String := s.paint v.styled text

/-- A path as it is shown. -/
def path (p : Path) : String := v.paint (.ink .blue) (p.shownFrom v.here)

/-- A tag as it is shown. -/
def tag : ClientTag → String
  | .directive => v.paint (.ink .yellow) "use client"
  | .imported => v.paint .faint "imported"

/-! ## Client components -/

/-- The client components with their tags. -/
def tagged (r : ScanResult) (clients : List Path) : List (Path × ClientTag) :=
  clients.map fun p =>
    (p, if r.entryPoints.any (·.same p) then .directive else .imported)

/-- The line of a client component; the last one closes the branch. -/
def clientLine (isLast : Bool) (p : Path) (t : ClientTag) : String :=
  v.paint .faint (if isLast then "└──" else "├──") ++ "  " ++ v.path p ++ " (" ++ v.tag t ++ ")"

/-- The lines of client components. -/
def clientLines : List (Path × ClientTag) → List String
  | [] => []
  | [(p, t)] => [v.clientLine true p t]
  | (p, t) :: rest => v.clientLine false p t :: clientLines rest

/-- The part about client components. -/
def clientPart (r : ScanResult) (l : Ledger) : List String :=
  match l.clients with
  | [] => [v.paint (.heavy .green) "✓" ++ " No client components found"]
  | clients =>
    [v.paint (.heavy .yellow) "●" ++ " " ++ v.paint (.ink .yellow) (toString clients.length) ++
      " client components", ""] ++ v.clientLines (tagged r clients) ++ [""]

/-! ## Trouble -/

/-- A heading with its lines and an empty one; nothing if there are no lines. -/
def listing (mark title : String) (lines : List String) : List String :=
  if lines.isEmpty then []
  else (mark ++ " " ++ toString lines.length ++ " " ++ title) :: lines ++ [""]

/-- The part about files that could not be used. -/
def failurePart (r : ScanResult) : List String :=
  listing (v.paint (.heavy .red) "✗") "files could not be scanned"
    (r.failures.map fun (p, f) => "    " ++ v.path p ++ " - " ++ v.paint (.ink .red) f.message)

/-- The part about edges that lead nowhere. -/
def warningPart (r : ScanResult) : List String :=
  listing (v.paint (.heavy .yellow) "⚠") "dead import edges"
    (r.warnings.map fun f => "    " ++ v.paint (.ink .yellow) f.message)

/-! ## Counts -/

/-- The rule above the counts. -/
def rule : String := String.ofList (List.replicate 60 '─')

/-- The counts. -/
def countPart (r : ScanResult) (l : Ledger) : List String :=
  [v.paint .faint rule,
   v.paint { bold := true } "Summary",
   "  Client components: " ++ v.paint (.heavy .yellow) (toString l.clients.length) ++
     " (" ++ toString r.entryPoints.length ++ " with directive, " ++
     toString r.marked.length ++ " imported)",
   "  Server components: " ++ v.paint (.heavy .green) (toString l.servers.length),
   "  Skipped import edges: " ++ toString r.skippedEdges.length]

/-- Lines as text. -/
def unlines (lines : List String) : String := String.join (lines.map (· ++ "\n"))

/-- The summary of a scan. -/
def summary (r : ScanResult) (l : Ledger) : String :=
  unlines (v.clientPart r l ++ v.failurePart r ++ v.warningPart r ++ v.countPart r l)

/-! ## Status -/

/-- The style of a classification. -/
def statusStyle : Classification → Style
  | .client => .heavy .yellow
  | .server => .heavy .green
  | .unknown => .faint

/-- What is known about one file. -/
def status (l : Ledger) (p : Path) : String :=
  v.path p ++ ": " ++ v.paint (statusStyle (l.get p)) (l.get p).label ++ "\n"

end Display

end ClientBoundary
