import ClientBoundary.Collect
import ClientBoundary.Config.Manifest
import ClientBoundary.Scan.Result

/-!
# Scans

A scan classifies every component file of a project. Files are **probed** first, which changes nothing,
and then **committed** one after the other in the order of their paths. A ledger that already holds
entries is refreshed: they are kept, new files are added, and nothing is moved back.
-/

namespace ClientBoundary

namespace Scan

/-- Files with what they say about themselves. -/
def probes (d : Disk) (files : List Path) : List (Path × Probe) :=
  files.map fun p => (p, Probe.ofFile d p)

/-- The files with the directive. -/
def entryPoints (probes : List (Path × Probe)) : List Path :=
  probes.filterMap fun
    | (p, .client _) => some p
    | _ => none

/-- Whether a path is among others. -/
def isAmong (paths : List Path) (p : Path) : Bool := paths.any (·.same p)

/-- Classifies the given files. -/
def classifyAll (d : Disk) (project : Project) (followDynamic : Bool) (l : Ledger)
    (files : List Path) : ScanResult × Ledger :=
  let probes := probes d files
  let (s, l, reports) := Session.commitAll d (.new project followDynamic) l probes
  let entries := entryPoints probes
  ({ root := project.root
     files := reports
     entryPoints := entries
     marked := s.log.marked.filter fun p => !isAmong entries p
     warnings := s.log.failures
     skippedEdges := s.log.skipped
     filesAnalyzed := files.length }, l)

/-- Fails unless the project depends on the framework. -/
def checkProject (d : Disk) (o : Options) (root : Path) : Except ScanError Unit :=
  if o.skipProjectCheck then .ok ()
  else
    match Manifest.isNextProject d root with
    | .error f => .error (.failure f)
    | .ok false => .error (.notNextProject root)
    | .ok true => .ok ()

/-- What a scan works on: the project that options ask for, and its component files. -/
def survey (d : Disk) (o : Options) : Except ScanError (Project × List Path) := do
  let c ← Config.settle { options := o } d
  let root ← c.root
  checkProject d o root
  let files ← Collect.components d root o.exclude
  return (⟨root, c.aliases⟩, files)

/-- Scans the project that options ask for. -/
def run (d : Disk) (o : Options) (l : Ledger) : Except ScanError (ScanResult × Ledger) := do
  let (project, files) ← survey d o
  return classifyAll d project o.followDynamic l files

end Scan

end ClientBoundary
