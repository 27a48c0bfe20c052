import ClientBoundary.Path

/-!
# Failures

What goes wrong with a single file. A failure does not stop a scan; it is reported with the rest.
-/

namespace ClientBoundary

/-- What went wrong with a file. -/
inductive Failure where
  /-- it cannot be read -/
  | unreadable (path : Path) (reason : String)
  /-- it is not well formed -/
  | malformed (path : Path) (detail : String)
  /-- it should configure the project and does not -/
  | misconfigured (path : Path) (reason : String)
deriving DecidableEq, Inhabited

namespace Failure

/-- What is said about a source text that is not well formed. -/
def badSource : String := "<syntax>"

/-- What is said about a document that is no JSON. -/
def badJson : String := "<json>"

/-- The file it is about. -/
def path : Failure → Path
  | unreadable p _ | malformed p _ | misconfigured p _ => p

/-- How it is worded. -/
def message : Failure → String
  | unreadable p reason => "failed to read " ++ p.shown ++ ": " ++ reason
  | malformed p detail => "failed to parse " ++ p.shown ++ ": " ++ detail
  | misconfigured p reason => "could not load " ++ p.shown ++ ": " ++ reason

end Failure

end ClientBoundary
