import ClientBoundary.Path

/-!
# Path aliases

A project may give short names to its directories. A **pattern** that ends in a star stands for
every specifier that starts with the rest of it; any other pattern stands for itself. The table
keeps its rules by the length of their stems, longest first, so the first rule that applies is the
most specific one.
-/

namespace ClientBoundary

/-- One alias. -/
structure AliasRule where
  /-- the pattern without its star -/
  stem : String
  /-- the pattern ends in a star -/
  wildcard : Bool
  /-- what the stem stands for, best first -/
  targets : List Path
deriving DecidableEq, Inhabited

namespace AliasRule

/-- What is left of a specifier behind the stem, if the rule applies. -/
def rest? (r : AliasRule) (specifier : String) : Option String :=
  if r.wildcard then (Text.stripLead? r.stem.toList specifier.toList).map String.ofList
  else if specifier = r.stem then some ""
  else none

/-- Whether two rules have the same pattern. -/
def samePattern (r s : AliasRule) : Bool := r.stem == s.stem && r.wildcard == s.wildcard

end AliasRule

/-- The stem of a pattern, and whether it ended in a star. -/
def splitPattern (pattern : String) : String × Bool :=
  match pattern.toList.reverse with
  | '*' :: stem => (String.ofList stem.reverse, true)
  | _ => (pattern, false)

/-- Aliases, longest stem first. -/
structure AliasTable where
  /-- the rules in the order they are tried -/
  rules : List AliasRule
deriving DecidableEq, Inhabited

namespace AliasTable

/-- No aliases. -/
def empty : AliasTable := ⟨[]⟩

/-- Rules with `r` before the first one that has a shorter stem. -/
def place (r : AliasRule) : List AliasRule → List AliasRule
  | [] => [r]
  | s :: rest =>
    if s.stem.utf8ByteSize < r.stem.utf8ByteSize then r :: s :: rest else s :: place r rest

/-- Adds an alias in place of an earlier one with the same pattern. A pattern without a stem would
take every specifier and is not added; nor is one without targets. -/
def insert (t : AliasTable) (pattern : String) (targets : List Path) : AliasTable :=
  let (stem, wildcard) := splitPattern pattern
  if stem = "" || targets.isEmpty then t
  else
    let r : AliasRule := { stem, wildcard, targets }
    ⟨place r (t.rules.filter (!r.samePattern ·))⟩

/-- The first rule that applies, with what is left of the specifier. -/
def lookup (t : AliasTable) (specifier : String) : Option (AliasRule × String) :=
  t.rules.findSome? fun r => (r.rest? specifier).map fun rest => (r, rest)

/-- The number of aliases. -/
def size (t : AliasTable) : Nat := t.rules.length

/-- Adds aliases one after the other. -/
def ofList (aliases : List (String × List Path)) : AliasTable :=
  aliases.foldl (fun t (pattern, targets) => t.insert pattern targets) empty

end AliasTable

end ClientBoundary
