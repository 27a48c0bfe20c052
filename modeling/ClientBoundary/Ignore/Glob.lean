import ClientBoundary.Text.Bytes

/-!
# Globs

A glob describes paths. A star stands for any bytes without a slash, a question mark for one of them,
brackets for one byte of a set, braces for one of several globs, and **two stars between slashes** for
any number of directories.

* `Glob.parse` reads a glob;
* `Glob.covers` tells whether it describes a path. It works on bytes, and on all rests of the path that
  a part of the glob may leave.
-/

namespace ClientBoundary

/-- A part of a glob. -/
inductive GlobToken where
  /-- the character itself -/
  | literal (c : Char)
  /-- one byte that is no slash -/
  | any
  /-- bytes that are no slashes -/
  | star
  /-- any directories at the start -/
  | leading
  /-- anything behind a slash -/
  | trailing
  /-- any directories between slashes -/
  | between
  /-- one byte of a set, or none of it -/
  | oneOf (negated : Bool) (ranges : List (Char × Char))
  /-- one of several globs -/
  | choice (branches : List (List GlobToken))

/-- A glob. -/
structure Glob where
  /-- its parts in order -/
  tokens : List GlobToken

/-- Why a text is no glob. -/
inductive GlobError where
  /-- a brace closes nothing -/
  | unopenedChoice
  /-- a brace is not closed -/
  | unclosedChoice
  /-- a range ends before it starts -/
  | emptyRange (first last : Char)
  /-- a backslash stands at the end -/
  | danglingEscape
deriving DecidableEq

/-- How an error is worded. -/
def GlobError.message : GlobError → String
  | unopenedChoice => "unopened alternate group; missing '\x7b' (maybe escape '\x7d' with '[\x7d]'?)"
  | unclosedChoice => "unclosed alternate group; missing '\x7d' (maybe escape '\x7b' with '[\x7b]'?)"
  | emptyRange first last =>
    "invalid range; " ++ String.singleton first ++ " > " ++ String.singleton last
  | danglingEscape => "dangling '\\'"

namespace Glob

open Bytes (slash)

/-! ## Reading -/

/-- How a set in brackets reads. -/
inductive SetReading where
  /-- a set, and how many characters it takes behind the bracket -/
  | closed (negated : Bool) (ranges : List (Char × Char)) (length : Nat)
  /-- no bracket closes it -/
  | unclosed
  | bad (e : GlobError)

/-- Reads the members of a set; `ranges` holds the last one first. -/
def readMembers (negated : Bool) : (first inRange : Bool) → (ranges : List (Char × Char)) →
    (length : Nat) → List Char → SetReading
  | _, _, _, _, [] => .unclosed
  | first, inRange, ranges, n, c :: rest =>
    if c = ']' && !first then
      .closed negated (if inRange then ('-', '-') :: ranges else ranges) (n + 1)
    else if c = '-' && !first && !inRange then readMembers negated false true ranges (n + 1) rest
    else
      match inRange, ranges with
      | true, (low, _) :: others =>
        if c < low then .bad (.emptyRange low c)
        else readMembers negated false false ((low, c) :: others) (n + 1) rest
      | _, _ => readMembers negated false false ((c, c) :: ranges) (n + 1) rest

/-- Reads a set behind its opening bracket. -/
def readSet : List Char → SetReading
  | '!' :: rest | '^' :: rest => readMembers true true false [] 1 rest
  | rest => readMembers false true false [] 0 rest

/-- What was read so far. -/
structure Reading where
  /-- parts of the branch, last one first -/
  branch : List GlobToken := []
  /-- choices that are open, each with its finished branches and the branch around it -/
  groups : List (List (List GlobToken) × List GlobToken) := []
  /-- the character before -/
  previous : Option Char := none
  /-- brackets stand for themselves from here on -/
  plainBrackets : Bool := false

namespace Reading

/-- Adds a part. -/
def push (r : Reading) (t : GlobToken) : Reading := { r with branch := t :: r.branch }

/-- Puts a part in place of the last one; two in a row that stand for any directories are one. -/
def absorb (r : Reading) (t : GlobToken) : Reading :=
  match r.branch with
  | .leading :: _ | .trailing :: _ => r
  | _ :: before => { r with branch := t :: before }
  | [] => r.push t

/-- Two stars with what follows them. Answers how many characters behind the second star are taken. -/
def doubleStar (r : Reading) (next : Option Char) : Reading × Nat :=
  let plain := (r.push .star).push .star
  if r.branch.isEmpty then
    match next with
    | none => (r.push .leading, 0)
    | some '/' => (r.push .leading, 1)
    | some _ => (plain, 0)
  else if r.previous != some '/' &&
      (r.groups.isEmpty || (r.previous != some ',' && r.previous != some '\x7b')) then
    (plain, 0)
  else
    match next with
    | none => (r.absorb .trailing, 0)
    | some '/' => (r.absorb .between, 1)
    | some c =>
      if (c = ',' || c = '\x7d') && !r.groups.isEmpty then (r.absorb .trailing, 0) else (plain, 0)

end Reading

/-- Reads a glob to its end; `skip` characters were taken before. -/
def read : (skip : Nat) → Reading → List Char → Except GlobError Reading
  | _, r, [] => .ok r
  | skip + 1, r, c :: rest => read skip { r with previous := some c } rest
  | 0, r, c :: rest =>
    let next (r : Reading) (skip : Nat) := read skip { r with previous := some c } rest
    match c with
    | '?' => next (r.push .any) 0
    | '*' =>
      match rest with
      | '*' :: behind =>
        let (r, taken) := r.doubleStar behind.head?
        next r (taken + 1)
      | _ => next (r.push .star) 0
    | '[' =>
      if r.plainBrackets then next (r.push (.literal '[')) 0
      else
        match readSet rest with
        | .closed negated ranges length => next (r.push (.oneOf negated ranges)) length
        | .unclosed => next { r.push (.literal '[') with plainBrackets := true } 0
        | .bad e => .error e
    | '\x7b' => next { r with branch := [], groups := ([], r.branch) :: r.groups } 0
    | '\x7d' =>
      match r.groups with
      | [] => .error .unopenedChoice
      | (branches, around) :: outer =>
        let choice := GlobToken.choice (branches ++ [r.branch.reverse])
        next { r with branch := choice :: around, groups := outer } 0
    | ',' =>
      match r.groups with
      | [] => next (r.push (.literal ',')) 0
      | (branches, around) :: outer =>
        next { r with branch := [], groups := (branches ++ [r.branch.reverse], around) :: outer } 0
    | '\\' =>
      match rest with
      | [] => .error .danglingEscape
      | escaped :: _ => next (r.push (.literal escaped)) 1
    | c => next (r.push (.literal c)) 0

/-- Reads a glob. -/
def parse (text : List Char) : Except GlobError Glob := do
  let r ← read 0 {} text
  if !r.groups.isEmpty then throw .unclosedChoice
  return ⟨r.branch.reverse⟩

/-! ## Matching -/

/-- The ranges of bytes that a range of characters adds to a set: the bytes of both ends, and what lies
between the last byte of the one and the first of the other. -/
def byteRanges (first last : Char) : List (UInt8 × UInt8) :=
  let single (b : UInt8) := (b, b)
  let low := String.utf8EncodeChar first
  let high := String.utf8EncodeChar last
  if first = last then low.map single
  else
    match low.getLast?, high with
    | some a, b :: others => low.dropLast.map single ++ (a, b) :: others.map single
    | _, _ => []

/-- Whether a byte is in a set. -/
def inSet (ranges : List (Char × Char)) (b : UInt8) : Bool :=
  ranges.any fun (first, last) => (byteRanges first last).any fun (low, high) => low ≤ b && b ≤ high

/-- All rests of a path, the path first. -/
def suffixes : Bytes → List Bytes
  | [] => [[]]
  | b :: rest => (b :: rest) :: suffixes rest

/-- The rests behind bytes that are no slashes. -/
def starRests : Bytes → List Bytes
  | [] => [[]]
  | b :: rest => if b = slash then [b :: rest] else (b :: rest) :: starRests rest

/-- The rests behind each slash. -/
def slashRests : Bytes → List Bytes
  | [] => []
  | b :: rest => if b = slash then rest :: slashRests rest else slashRests rest

/-- The rest behind one byte that passes a test. -/
def oneRest (test : UInt8 → Bool) : Bytes → List Bytes
  | [] => []
  | b :: rest => if test b then [rest] else []

/-- The rest behind given bytes. -/
def literalRest : Bytes → Bytes → List Bytes
  | [], rest => [rest]
  | _ :: _, [] => []
  | a :: as, b :: bs => if a = b then literalRest as bs else []

mutual

/-- Whether a part stands for nothing at all. -/
def isVoid : GlobToken → Bool
  | .choice branches => areVoidBranches branches
  | _ => false

/-- Whether parts stand for nothing at all. -/
def areVoid : List GlobToken → Bool
  | [] => true
  | t :: rest => isVoid t && areVoid rest

/-- Whether all branches stand for nothing at all. -/
def areVoidBranches : List (List GlobToken) → Bool
  | [] => true
  | branch :: rest => areVoid branch && areVoidBranches rest

end

mutual

/-- The rests that a part may leave. An empty branch of a choice does not count. -/
def rests : GlobToken → Bytes → List Bytes
  | .literal c, text => literalRest (String.utf8EncodeChar c) text
  | .any, text => oneRest (· != slash) text
  | .star, text => starRests text
  | .leading, text => text :: slashRests text
  | .trailing, text => (oneRest (· == slash) text).flatMap suffixes
  | .between, text => (oneRest (· == slash) text).flatMap fun rest => rest :: slashRests rest
  | .oneOf negated ranges, text => oneRest (fun b => inSet ranges b != negated) text
  | .choice branches, text =>
    if areVoidBranches branches then [text] else branchRests branches text

/-- The rests that parts may leave of any of several paths, one after the other. -/
def allRests : List GlobToken → List Bytes → List Bytes
  | [], texts => texts
  | t :: more, texts => allRests more (texts.flatMap (rests t)).eraseDups

/-- The rests that one of several branches may leave. -/
def branchRests : List (List GlobToken) → Bytes → List Bytes
  | [], _ => []
  | branch :: more, text =>
    (if areVoid branch then [] else allRests branch [text]) ++ branchRests more text

end

/-- Whether a glob describes a path. Two stars alone describe every path. -/
def covers (g : Glob) (path : Bytes) : Bool :=
  match g.tokens with
  | [.leading] => true
  | tokens => (allRests tokens [path]).contains []

end Glob

end ClientBoundary
