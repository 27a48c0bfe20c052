import ClientBoundary.Disk
import ClientBoundary.Failure
import ClientBoundary.Script.Module

/-!
# Source files

What is known about a file on a disk, or what went wrong with it.
-/

namespace ClientBoundary

namespace Module

/-- Reads a source text, or says what is wrong with it. -/
def parse (file : Path) (source : String) : Except Failure Module :=
  match parse? file source with
  | some m => .ok m
  | none => .error (.malformed file Failure.badSource)

/-- Reads a source file. -/
def ofFile (d : Disk) (file : Path) : Except Failure Module :=
  match d.readText file with
  | .ok source => parse file source
  | .error e => .error (.unreadable file e.message)

end Module

end ClientBoundary
