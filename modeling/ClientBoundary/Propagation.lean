import ClientBoundary.Ledger
import ClientBoundary.Resolve
import ClientBoundary.Source

/-!
# Propagation

Everything a client component imports at run time runs on the client too. Propagation starts from
one file and follows edges depth first, in the order of the source: the **front** of files still to
visit is a stack. Files that are client components already are not entered again.

Each file is marked once, so the number of files bounds how often the front grows.
-/

namespace ClientBoundary

/-- Why a file or an edge was passed over. -/
inductive SkipReason where
  /-- the file is no script -/
  | unsupportedExtension
  /-- only types are used -/
  | typeOnly
  /-- a package, or a file that is no script -/
  | external
  /-- `import()` or `require()` where these are not followed -/
  | dynamicImport
deriving DecidableEq, Inhabited

/-- How a reason is called in a report. -/
def SkipReason.name : SkipReason → String
  | unsupportedExtension => "unsupported-extension"
  | typeOnly => "type-only"
  | external => "external"
  | dynamicImport => "dynamic-import"

/-- An edge that was passed over. -/
structure SkippedEdge where
  /-- the importing file -/
  importer : Path
  /-- what it names -/
  specifier : String
  /-- why it was passed over -/
  reason : SkipReason
deriving DecidableEq, Inhabited

/-- What propagation has done. -/
structure Propagation where
  /-- files that became client components, in the order they were visited -/
  marked : List Path
  /-- edges that were passed over -/
  skipped : List SkippedEdge
  /-- imported files that cannot be used -/
  failures : List Failure
deriving DecidableEq, Inhabited

namespace Propagation

/-- Nothing was done. -/
def empty : Propagation := ⟨[], [], []⟩

/-- One after the other. -/
def merge (p q : Propagation) : Propagation :=
  ⟨p.marked ++ q.marked, p.skipped ++ q.skipped, p.failures ++ q.failures⟩

end Propagation

/-- What propagation works with. -/
structure Terrain where
  /-- the disk -/
  disk : Disk
  /-- the project -/
  project : Project
  /-- calls are followed like declarations -/
  followDynamic : Bool

/-- What propagation changes. -/
structure Wave where
  /-- what is known about files -/
  ledger : Ledger
  /-- answers of resolution -/
  memo : Memo
  /-- places that were visited -/
  visited : List (List Step)
  /-- what was done -/
  done : Propagation

namespace Wave

/-- Whether a file was visited. -/
def hasVisited (w : Wave) (p : Path) : Bool := w.visited.contains p.steps

/-- Remembers a visit. -/
def visit (w : Wave) (p : Path) : Wave := { w with visited := p.steps :: w.visited }

/-- Notes an edge that is passed over. -/
def skip (w : Wave) (importer : Path) (e : Edge) (reason : SkipReason) : Wave :=
  let entry : SkippedEdge := ⟨importer, e.specifier, reason⟩
  { w with done := { w.done with skipped := w.done.skipped ++ [entry] } }

/-- Notes an imported file that cannot be used. -/
def fail (w : Wave) (f : Failure) : Wave :=
  { w with done := { w.done with failures := w.done.failures ++ [f] } }

/-- Makes a file a client component. -/
def mark (w : Wave) (p : Path) : Wave :=
  { w with
    ledger := w.ledger.setClient p
    done := { w.done with marked := w.done.marked ++ [p] } }

end Wave

namespace Terrain

variable (t : Terrain)

/-- Why an edge is passed over, as far as the edge itself tells. -/
def skipReason? (e : Edge) : Option SkipReason :=
  if e.typeOnly then some .typeOnly
  else if !e.kind.isStatic && !t.followDynamic then some .dynamicImport
  else none

/-- Follows one edge of a file. Answers the file to visit, if there is one. -/
def followEdge (importer : Path) (w : Wave) (e : Edge) : Wave × Option Path :=
  match t.skipReason? e with
  | some reason => (w.skip importer e reason, none)
  | none =>
    let (target?, memo) := w.memo.resolve t.disk t.project importer e.specifier
    let w := { w with memo }
    match target? with
    | none => (w.skip importer e .external, none)
    | some target =>
      if w.hasVisited target || w.ledger.get target == .client then (w, none)
      else (w, some target)

/-- Follows the edges of a file. Answers the files to visit, in order. -/
def followEdges (importer : Path) : Wave → List Edge → Wave × List Path
  | w, [] => (w, [])
  | w, e :: rest =>
    let (w, next?) := t.followEdge importer w e
    let (w, next) := followEdges importer w rest
    (w, next?.toList ++ next)

/-- Marks a file and follows its edges. -/
def enter (w : Wave) (p : Path) (edges : List Edge) : Wave × List Path :=
  t.followEdges p (w.mark p) edges

/-- Works on the front up to the next file that can be entered, which is left to `expand` with its
edges and the rest of the front. -/
def drain (expand : Wave → Path → List Edge → List Path → Wave) : Wave → List Path → Wave
  | w, [] => w
  | w, p :: rest =>
    if w.hasVisited p then drain expand w rest
    else
      match Module.ofFile t.disk p with
      | .error f => drain expand ((w.visit p).fail f) rest
      | .ok m => expand (w.visit p) p m.edges rest

/-- Works on the front until it is empty, entering at most `n` files. -/
def sweep : (n : Nat) → Wave → (front : List Path) → Wave
  | 0 => t.drain fun w _ _ _ => w
  | n + 1 => t.drain fun w p edges rest =>
    let (w, next) := t.enter w p edges
    sweep n w (next ++ rest)

/-- More files than can be entered: those of the disk, and those of answers given before. -/
def reach (m : Memo) : Nat := t.disk.tree.files.length + m.size

/-- Makes a file with the given edges a client component, and all it imports. -/
def propagate (ledger : Ledger) (memo : Memo) (p : Path) (edges : List Edge) : Wave :=
  let w : Wave := ⟨ledger, memo, [], Propagation.empty⟩
  let (w, next) := t.enter (w.visit p) p edges
  t.sweep (t.reach memo) w next

end Terrain

end ClientBoundary
