import ClientBoundary.Session

/-!
# Results of a scan

What a scan found out beside the ledger: the files it looked at, which of them asked to run on the
client themselves, and which edges led nowhere or were passed over.
-/

namespace ClientBoundary

/-- What a scan found out. -/
structure ScanResult where
  /-- the root of the project -/
  root : Path
  /-- the component files with what came of them -/
  files : List (Path × Outcome)
  /-- files with the directive -/
  entryPoints : List Path
  /-- files that are imported by client components and have no directive -/
  marked : List Path
  /-- edges that lead nowhere -/
  warnings : List Failure
  /-- edges that were passed over -/
  skippedEdges : List SkippedEdge
  /-- the number of component files -/
  filesAnalyzed : Nat
deriving DecidableEq, Inhabited

namespace ScanResult

/-- Component files that could not be used. -/
def failures (r : ScanResult) : List (Path × Failure) :=
  r.files.filterMap fun
    | (p, .failed f) => some (p, f)
    | _ => none

/-- Whether some component file could not be used. -/
def hasFailures (r : ScanResult) : Bool := !r.failures.isEmpty

end ScanResult

end ClientBoundary
