import ClientBoundary.Path

/-!
# Classifications

A component runs on the **server** or on the **client**. The ledger holds what is known about files.
Its entries only move forward: a file that is not entered becomes a server component or a client
component, a server component becomes a client component, and nothing else happens.

Entries are kept in the order of their paths, and paths that name the same place share one entry,
which keeps the spelling of the first one.
-/

namespace ClientBoundary

/-- What is known about a file. -/
inductive Classification where
  | unknown
  | server
  | client
deriving DecidableEq, Inhabited

namespace Classification

/-- How far a classification has moved. -/
def rank : Classification → Nat
  | unknown => 0
  | server => 1
  | client => 2

/-- How it is called in a status line. -/
def label : Classification → String
  | client => "Client Component"
  | server => "Server Component"
  | unknown => "Not a component"

/-- How it is called in a report. -/
def name : Classification → String
  | client => "client"
  | server => "server"
  | unknown => "unknown"

end Classification

/-- Where a component runs. -/
inductive Side where
  | server
  | client
deriving DecidableEq, Inhabited

/-- The classification of a component that runs on a side. -/
def Side.classification : Side → Classification
  | server => .server
  | client => .client

namespace Ledger

/-- Entries stand in the strict order of their paths, so no place has two. -/
def Ordered (entries : List (Path × Side)) : Prop :=
  entries.Pairwise fun a b => a.1.order b.1 = .lt

instance (entries : List (Path × Side)) : Decidable (Ordered entries) :=
  inferInstanceAs (Decidable (entries.Pairwise _))

/-- Entries with that of `p` changed, or entered in its place. -/
def enter (p : Path) (change : Option Side → Side) : List (Path × Side) → List (Path × Side)
  | [] => [(p, change none)]
  | (q, side) :: rest =>
    match p.order q with
    | .lt => (p, change none) :: (q, side) :: rest
    | .eq => (q, change (some side)) :: rest
    | .gt => (q, side) :: enter p change rest

/-- What precedes `p` and all entries precedes them after `p` is entered. -/
theorem lt_of_mem_enter {o p : Path} {change : Option Side → Side} {entries : List (Path × Side)}
    (hp : o.order p = .lt) (hes : ∀ e ∈ entries, o.order e.1 = .lt) :
    ∀ e ∈ enter p change entries, o.order e.1 = .lt := by
  induction entries with
  | nil => simpa [enter] using hp
  | cons head rest ih =>
    obtain ⟨q, side⟩ := head
    obtain ⟨hq, hrest⟩ := List.forall_mem_cons.1 hes
    rw [enter]
    split
    · exact List.forall_mem_cons.2 ⟨hp, hes⟩
    · exact List.forall_mem_cons.2 ⟨hq, hrest⟩
    · exact List.forall_mem_cons.2 ⟨hq, ih hrest⟩

/-- Entering a path keeps the order. -/
theorem Ordered.enter {p : Path} {change : Option Side → Side} {entries : List (Path × Side)}
    (h : Ordered entries) : Ordered (enter p change entries) := by
  induction entries with
  | nil => exact List.pairwise_singleton _ _
  | cons head rest ih =>
    obtain ⟨q, side⟩ := head
    obtain ⟨hq, hrest⟩ := List.pairwise_cons.1 h
    rw [Ledger.enter]
    split
    · rename_i hlt
      refine List.pairwise_cons.2 ⟨List.forall_mem_cons.2 ⟨hlt, ?_⟩, h⟩
      intro e he
      exact Std.TransCmp.lt_trans hlt (hq e he)
    · exact List.pairwise_cons.2 ⟨hq, hrest⟩
    · rename_i hgt
      exact List.pairwise_cons.2 ⟨lt_of_mem_enter (Std.OrientedCmp.lt_of_gt hgt) hq, ih hrest⟩

end Ledger

/-- What is known about files. -/
structure Ledger where
  /-- files with their sides -/
  entries : List (Path × Side)
  /-- they stand in the order of their paths -/
  ordered : Ledger.Ordered entries
deriving DecidableEq

namespace Ledger

/-- Nothing is known. -/
def empty : Ledger := ⟨[], .nil⟩

instance : Inhabited Ledger := ⟨empty⟩

/-- The side of a file, if it is entered. -/
def side? (l : Ledger) (p : Path) : Option Side := (l.entries.find? (·.1.same p)).map (·.2)

/-- What is known about a file. -/
def get (l : Ledger) (p : Path) : Classification :=
  match l.side? p with
  | some side => side.classification
  | none => .unknown

/-- Whether a file is entered. -/
def contains (l : Ledger) (p : Path) : Bool := (l.side? p).isSome

/-- Makes a file a client component. -/
def setClient (l : Ledger) (p : Path) : Ledger :=
  ⟨enter p (fun _ => .client) l.entries, l.ordered.enter⟩

/-- Makes a file a server component unless something is known about it. -/
def setServerIfUnknown (l : Ledger) (p : Path) : Ledger :=
  ⟨enter p (fun old => old.getD .server) l.entries, l.ordered.enter⟩

/-- All entries in the order of their paths. -/
def snapshot (l : Ledger) : List (Path × Classification) :=
  l.entries.map fun (p, side) => (p, side.classification)

/-- The files on a side, in order. -/
def onSide (l : Ledger) (side : Side) : List Path :=
  (l.entries.filter (·.2 == side)).map (·.1)

/-- The client components, in order. -/
def clients (l : Ledger) : List Path := l.onSide .client

/-- The server components, in order. -/
def servers (l : Ledger) : List Path := l.onSide .server

/-- The number of entries. -/
def size (l : Ledger) : Nat := l.entries.length

end Ledger

end ClientBoundary
