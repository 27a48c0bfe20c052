import ClientBoundary.Report.Document
import ClientBoundary.Report.Summary
import ClientBoundary.Scan

/-!
# Commands

The command line has two commands: `scan` reports on a whole project, `status` on one file of it. A
command works on a disk and answers with an exit code and two texts.
-/

namespace ClientBoundary

/-- A command with what it is asked for. -/
inductive Command where
  /-- report on all component files -/
  | scan (options : Options)
  /-- report on one file -/
  | status (file : Path) (options : Options)

/-- What a command leaves behind. -/
structure Answer where
  /-- the exit code -/
  code : Nat
  /-- what it prints -/
  output : String
  /-- what it complains about -/
  complaint : String
deriving DecidableEq, Inhabited

/-- What a command finds. -/
inductive Report where
  /-- about a project, perhaps as JSON -/
  | project (json : Bool) (result : ScanResult) (ledger : Ledger)
  /-- about a file -/
  | file (path : Path) (ledger : Ledger)

/-- How a command runs. -/
structure Console where
  /-- styles are on -/
  styled : Bool
  /-- the elapsed milliseconds, as they are shown -/
  elapsed : String
  /-- the number of threads -/
  threads : Nat

namespace Command

/-- The options of a command. -/
def options : Command → Options
  | scan o | status _ o => o

/-- The file that a command is about. -/
def file? : Command → Option Path
  | scan _ => none
  | status file _ => some file

/-- The commands by their names. -/
def parse : List String → Except UsageError Command
  | "scan" :: words => (Options.ofWords words).map .scan
  | "status" :: words => (Options.withFile words).map fun (file, o) => .status file o
  | "help" :: _ => .error .displayHelp
  | [] => .error .missingRequiredArgument
  | word :: _ =>
    match word.toList with
    | '-' :: 'h' :: _ => .error .displayHelp
    | _ => if word = "--help" then .error .displayHelp else .error .unknownArgument

/-- How the command line is used. -/
def usage : String :=
  "Find out which Next.js components end up on the client\n\n" ++
    "Usage: scan [OPTIONS]\n       status [OPTIONS] <FILE>\n\n" ++
    "Options:\n" ++
    "      --root <ROOT>         Root directory of the project (defaults to git root)\n" ++
    "      --exclude <EXCLUDE>   Directory names to skip while walking the project\n" ++
    "      --follow-dynamic      Also propagate through import() and require() calls\n" ++
    "      --skip-project-check  Scan even when package.json does not list next as a dependency\n" ++
    "      --json                Print a JSON report instead of the summary\n" ++
    "  -h, --help                Print help\n"

/-- The answer to a command line that is refused. -/
def refuse : UsageError → Answer
  | .displayHelp => ⟨0, usage, ""⟩
  | _ => ⟨2, "", usage⟩

/-- The exit code of a scan. -/
def exitCode (r : ScanResult) : Nat := if r.hasFailures then 1 else 0

/-- The last line of a summary. -/
def closing (c : Console) (r : ScanResult) : String :=
  let ink (colour : Colour) (text : String) := (Style.ink colour).paint c.styled text
  "\n" ++ ink .brightBlue "●" ++ " Finished in " ++ ink .cyan c.elapsed ++ "ms on " ++
    ink .cyan (toString r.filesAnalyzed) ++ " files (using " ++ ink .cyan (toString c.threads) ++
    " threads).\n"

/-- Does the work of a command. Fails with a message. -/
def perform (d : Disk) : Command → Except String Report
  | .scan o =>
    match Scan.run d o .empty with
    | .error e => .error e.message
    | .ok (r, l) => .ok (.project o.json r l)
  | .status file o =>
    match d.canonical file with
    | .error e => .error ("Cannot open " ++ file.shown ++ "\n\nCaused by:\n    " ++ e.message)
    | .ok p =>
      match Scan.run d o .empty with
      | .error e => .error e.message
      | .ok (_, l) => .ok (.file p l)

/-- The answer that a report makes. -/
def answer (c : Console) (here : Path) : Except String Report → Answer
  | .error message => ⟨1, "", "Error: " ++ message ++ "\n"⟩
  | .ok (.project true r l) =>
    match r.document? l with
    | some text => ⟨exitCode r, text, ""⟩
    | none => ⟨1, r.fragment l, "Error: " ++ ScanResult.notText ++ "\n"⟩
  | .ok (.project false r l) =>
    ⟨exitCode r, Display.summary ⟨c.styled, here⟩ r l ++ closing c r, ""⟩
  | .ok (.file p l) => ⟨0, Display.status ⟨c.styled, here⟩ l p, ""⟩

/-- Runs a command. -/
def run (command : Command) (c : Console) (d : Disk) : Answer :=
  answer c d.cwdPath (command.perform d)

/-- Runs the command that words ask for. -/
def runWords (c : Console) (d : Disk) (words : List String) : Answer :=
  match parse words with
  | .ok command => command.run c d
  | .error e => refuse e

end Command

end ClientBoundary
