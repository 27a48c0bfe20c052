import ClientBoundary.Text.Bytes

/-!
# Paths

A `Path` is written in bytes; what it means is its list of **steps**. Repeated slashes, a trailing slash
and inner `.` segments do not make steps, so paths that differ only in those name the same place. Maps
and orders on paths go by steps, messages show the path.

* `steps` reads a path, `ofSteps` writes a list of steps plainly;
* `join`, `parent?`, `extension?`, `withExtension`, `appendShown` build neighbouring paths;
* `clean` removes `.` and resolves `..` without looking at any file.

A path need not be a text. It is shown all the same, and where it is built from what is shown
(`appendShown`) it may become another one.
-/

namespace ClientBoundary

open Bytes (slash dot)

/-- One step of a path. -/
inductive Step where
  /-- the leading slash -/
  | root
  /-- a leading `.` -/
  | here
  /-- `..` -/
  | up
  /-- a named entry -/
  | name (bytes : Bytes)
deriving DecidableEq, Inhabited

namespace Step

/-- Steps of different kinds are ordered by kind. -/
def rank : Step → Nat
  | root => 0
  | here => 1
  | up => 2
  | name _ => 3

/-- The bytes a step contributes. -/
def bytes : Step → Bytes
  | root => [slash]
  | here => [dot]
  | up => [dot, dot]
  | name bs => bs

/-- By kind first, names by their bytes. -/
def order (a b : Step) : Ordering :=
  (compare a.rank b.rank).then (compare a.bytes b.bytes)

instance : Std.TransCmp order :=
  inferInstanceAs (Std.TransCmp (compareLex (compareOn rank) (compareOn bytes)))

/-- Only equal steps are equal in the order. -/
theorem eq_of_order_eq {a b : Step} (h : a.order b = .eq) : a = b := by
  obtain ⟨hrank, hbytes⟩ := Ordering.then_eq_eq.1 h
  have hrank := Std.LawfulEqOrd.eq_of_compare hrank
  have hbytes := Std.LawfulEqOrd.eq_of_compare hbytes
  cases a <;> cases b <;> simp_all [rank, bytes]

instance : Std.LawfulEqCmp order where
  eq_of_compare := eq_of_order_eq

/-- The step an inner segment stands for; empty segments and `.` stand for none. -/
def ofSegment? (segment : Bytes) : Option Step :=
  if segment = [] then none
  else if segment = [dot] then none
  else if segment = [dot, dot] then some up
  else some (name segment)

end Step

/-- A path as written. -/
structure Path where
  /-- the bytes -/
  bytes : Bytes
deriving DecidableEq, Inhabited

namespace Path

/-- The path as it is shown. -/
def shown (p : Path) : String := p.bytes.shown

/-- Whether the path is a text. -/
def isText (p : Path) : Bool := p.bytes.isText

/-- Whether the path starts at the root. -/
def isAbsolute (p : Path) : Bool := p.bytes.head? == some slash

/-- The segments between slashes, empty ones included. -/
def segments (p : Path) : List Bytes := Text.cut slash p.bytes

/-- The steps of a list of segments that starts the path. -/
def stepsOfSegments : List Bytes → List Step
  | [] => []
  | first :: rest =>
    if first = [dot] then Step.here :: rest.filterMap Step.ofSegment?
    else (first :: rest).filterMap Step.ofSegment?

/-- What the path means. -/
def steps (p : Path) : List Step :=
  if p.isAbsolute then Step.root :: p.segments.filterMap Step.ofSegment?
  else stepsOfSegments p.segments

/-- The plain path of a list of steps. -/
def ofSteps : List Step → Path
  | Step.root :: rest => ⟨slash :: Text.glue slash (rest.map Step.bytes)⟩
  | ss => ⟨Text.glue slash (ss.map Step.bytes)⟩

/-- Two paths that name the same place without asking any file. -/
def same (p q : Path) : Bool := p.steps == q.steps

/-- Lexicographic order of step lists. -/
def orderSteps : List Step → List Step → Ordering
  | [], [] => .eq
  | [], _ :: _ => .lt
  | _ :: _, [] => .gt
  | a :: as, b :: bs => (a.order b).then (orderSteps as bs)

/-- Paths are ordered step by step. -/
def order (p q : Path) : Ordering := orderSteps p.steps q.steps

/-- `p` precedes `q` or names the same place. -/
def le (p q : Path) : Bool := p.order q != .gt

/-- The order of step lists is the lexicographic one. -/
theorem orderSteps_eq (as bs : List Step) : orderSteps as bs = as.compareLex Step.order bs := by
  induction as generalizing bs with
  | nil => cases bs <;> rfl
  | cons a as ih =>
    cases bs with
    | nil => rfl
    | cons b bs => rw [orderSteps, List.compareLex_cons_cons, ih]

theorem order_eq (p q : Path) : p.order q = p.steps.compareLex Step.order q.steps :=
  orderSteps_eq _ _

instance : Std.TransCmp order where
  eq_swap {p q} := by
    rw [order_eq, order_eq]
    exact Std.OrientedCmp.eq_swap
  isLE_trans {p q r} h k := by
    rw [order_eq] at h k ⊢
    exact Std.TransCmp.isLE_trans h k

/-- Paths are equal in the order when they have the same steps. -/
theorem order_eq_eq_iff {p q : Path} : p.order q = .eq ↔ p.steps = q.steps := by
  rw [order_eq, Std.LawfulEqCmp.compare_eq_iff_eq]

/-- `q` seen from `p`: an absolute `q` replaces `p`. -/
def join (p : Path) (q : Bytes) : Path :=
  if q.head? = some slash then ⟨q⟩
  else
    match p.bytes.getLast? with
    | none => ⟨q⟩
    | some slash => ⟨p.bytes ++ q⟩
    | some _ => ⟨p.bytes ++ slash :: q⟩

/-! ## Ends of paths -/

/-- Segments that make no step inside a path. -/
def isIdle (segment : Bytes) : Bool := segment.isEmpty || segment == [dot]

/-- Segments without idle ones at their end. -/
def trimEnd (segments : List Bytes) : List Bytes := (segments.reverse.dropWhile isIdle).reverse

/-- A first segment with others behind it, without idle ones at the end; the root keeps its slash. -/
def glueTrimmed (isAbsolute : Bool) (first : Bytes) (rest : List Bytes) : Bytes :=
  match trimEnd rest with
  | [] => if isAbsolute then [slash] else first
  | rest => Text.glue slash (first :: rest)

/-- The path without slashes and dots at its end that make no step. -/
def trimmed (p : Path) : Bytes :=
  match p.segments with
  | [] => []
  | first :: rest => glueTrimmed p.isAbsolute first rest

/-- The path without its last step, as it is written in front of it; the root and the empty path have
none. -/
def parent? (p : Path) : Option Path :=
  match p.segments with
  | [] => none
  | first :: rest =>
    match trimEnd rest with
    | [] => if first = [] then none else some ⟨[]⟩
    | rest => some ⟨glueTrimmed p.isAbsolute first rest.dropLast⟩

/-- The name of the last step. -/
def fileName? (p : Path) : Option Bytes :=
  match p.steps.getLast? with
  | some (Step.name bs) => some bs
  | _ => none

/-- A name cut at its last dot. A dot that starts the name does not count. -/
def splitName (name : Bytes) : Bytes × Option Bytes :=
  let tail := name.reverse.takeWhile (· != dot)
  match name.reverse.dropWhile (· != dot) with
  | _ :: stem => if stem.isEmpty then (name, none) else (stem.reverse, some tail.reverse)
  | [] => (name, none)

/-- What follows the last dot of the file name, if it is a text. -/
def extension? (p : Path) : Option String :=
  p.fileName?.bind fun name => (splitName name).2.bind Bytes.text?

/-- The path with the extension of its file name exchanged. -/
def withExtension (p : Path) (ext : String) : Path :=
  match p.steps.reverse with
  | Step.name bs :: rest =>
    ofSteps (rest.reverse ++ [Step.name ((splitName bs).1 ++ dot :: Bytes.ofText ext)])
  | _ => p

/-- The path that is written as `p` is shown, with `suffix` behind it. -/
def appendShown (p : Path) (suffix : String) : Path := ⟨Bytes.ofText (p.shown ++ suffix)⟩

/-! ## Cleaning -/

/-- One step of lexical cleaning; `done` holds the cleaned steps, last first. -/
def cleanStep (done : List Step) : Step → List Step
  | Step.here => done
  | Step.up =>
    match done with
    | Step.root :: _ => done
    | Step.name _ :: rest => rest
    | _ => Step.up :: done
  | s => s :: done

/-- The steps with `.` dropped and `..` resolved where a name stands before it. -/
def cleanSteps (ss : List Step) : List Step := (ss.foldl cleanStep []).reverse

/-- The shortest path that leads to the same place if no link is on the way. -/
def clean (p : Path) : Path :=
  match cleanSteps p.steps with
  | [] => ⟨[dot]⟩
  | ss => ofSteps ss

/-! ## Paths seen from elsewhere -/

/-- Segments behind the first `n` that make steps. -/
def dropSteps : (n : Nat) → List Bytes → List Bytes
  | 0, segments => segments
  | _, [] => []
  | n + 1, segment :: rest =>
    if isIdle segment then dropSteps (n + 1) rest else dropSteps n rest

/-- Segments without idle ones at either end, glued together. -/
def gluedBody (segments : List Bytes) : Bytes :=
  Text.glue slash (trimEnd (segments.dropWhile isIdle))

/-- What is written behind `base`, if the path leads there from `base`. Slashes and dots that make no
step are kept in the middle and dropped at the ends. -/
def below? (p base : Path) : Option Bytes :=
  let steps := base.steps
  if steps.isPrefixOf p.steps then
    match steps with
    | [] => some p.trimmed
    | Step.root :: names => some (gluedBody (dropSteps names.length p.segments))
    | Step.here :: names => some (gluedBody (dropSteps names.length (p.segments.drop 1)))
    | names => some (gluedBody (dropSteps names.length p.segments))
  else none

/-- The path as written behind `base`, or as it is if it does not lead there. -/
def seenBelow (p base : Path) : Path := ⟨(p.below? base).getD p.bytes⟩

/-- How many steps two paths have in common at their start. -/
def common : List Step → List Step → Nat
  | a :: as, b :: bs => if a = b then common as bs + 1 else 0
  | _, _ => 0

/-- The way from `base` to `target`: up to what they have in common, then down. Paths that start
differently have none. -/
def relative? (target base : Path) : Option Path :=
  let ts := target.steps
  let bs := base.steps
  if ts.head? != bs.head? then none
  else
    let n := common ts bs
    let down := (ts.drop n).filter fun
      | .name _ | .up => true
      | .root | .here => false
    match (bs.drop n).map (fun _ => Step.up) ++ down with
    | [] => some ⟨[dot]⟩
    | way => some (ofSteps way)

/-- The path as it is shown to someone at `base`. -/
def shownFrom (target base : Path) : String :=
  match target.relative? base with
  | some p => p.shown
  | none => target.shown

end Path

end ClientBoundary
