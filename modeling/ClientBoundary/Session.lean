import ClientBoundary.Propagation

/-!
# Sessions

A session classifies the files of a project. Its memo and its log belong to it; the ledger is handed
in and out and may serve other sessions.
-/

namespace ClientBoundary

/-- What a file says about itself. -/
inductive Probe where
  /-- it asks to run on the client, and has these edges -/
  | client (edges : List Edge)
  /-- it does not -/
  | server
  /-- it cannot be used -/
  | failed (f : Failure)
deriving DecidableEq, Inhabited

/-- Looks at a file without changing anything. -/
def Probe.ofFile (d : Disk) (p : Path) : Probe :=
  match Module.ofFile d p with
  | .ok m => if m.isClient then .client m.edges else .server
  | .error f => .failed f

/-- What came of classifying a file. -/
inductive Outcome where
  | classified (c : Classification)
  | skipped (reason : SkipReason)
  | failed (f : Failure)
deriving DecidableEq, Inhabited

/-- The classification, if there is one. -/
def Outcome.classification? : Outcome → Option Classification
  | classified c => some c
  | _ => none

/-- One run over a project. -/
structure Session where
  /-- the project -/
  project : Project
  /-- calls are followed like declarations -/
  followDynamic : Bool
  /-- answers of resolution -/
  memo : Memo
  /-- what was done so far -/
  log : Propagation

namespace Session

/-- A session that has done nothing. -/
def new (project : Project) (followDynamic : Bool) : Session :=
  ⟨project, followDynamic, .empty, .empty⟩

variable (s : Session) (d : Disk)

/-- What propagation works with. -/
def terrain : Terrain := ⟨d, s.project, s.followDynamic⟩

/-- Makes a file a client component, and all it imports, without a note in the log. -/
def markClient (l : Ledger) (p : Path) (edges : List Edge) : Session × Ledger × Propagation :=
  let w := (s.terrain d).propagate l s.memo p edges
  ({ s with memo := w.memo }, w.ledger, w.done)

/-- Enters what a file says about itself, unless it is known already. -/
def commit (l : Ledger) (p : Path) (probe : Probe) : Session × Ledger × Outcome :=
  match l.side? p with
  | some side => (s, l, .classified side.classification)
  | none =>
    match probe with
    | .failed f => (s, l, .failed f)
    | .server =>
      let l := l.setServerIfUnknown p
      (s, l, .classified (l.get p))
    | .client edges =>
      let (s, l, done) := s.markClient d l p edges
      ({ s with log := s.log.merge done }, l, .classified .client)

/-- Classifies a file, and all it imports if it is a client component. -/
def classify (l : Ledger) (p : Path) : Session × Ledger × Outcome :=
  if !p.isScript then (s, l, .skipped .unsupportedExtension)
  else
    match l.side? p with
    | some side => (s, l, .classified side.classification)
    | none => s.commit d l p (Probe.ofFile d p)

/-- Commits files one after the other. -/
def commitAll : Session → Ledger → List (Path × Probe) →
    Session × Ledger × List (Path × Outcome)
  | s, l, [] => (s, l, [])
  | s, l, (p, probe) :: rest =>
    let (s, l, outcome) := s.commit d l p probe
    let (s, l, reports) := commitAll s l rest
    (s, l, (p, outcome) :: reports)

end Session

end ClientBoundary
