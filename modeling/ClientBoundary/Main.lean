import ClientBoundary.Snapshot

/-!
# The command line

Reads the disk and the words, runs the command, and prints its answer.
-/

namespace ClientBoundary

/-- Whether the output is styled. -/
def isStyled : IO Bool := do
  let isTerminal ← (← IO.getStdout).isTty
  return Style.areOn (← IO.getEnv "CLICOLOR_FORCE") (← IO.getEnv "NO_COLOR") (← IO.getEnv "CLICOLOR")
    isTerminal

/-- Runs a command on the real disk. -/
def Command.execute (c : Command) : IO Answer := do
  let start ← IO.monoMsNow
  let d ← Snapshot.disk c
  let report ← IO.lazyPure fun _ => c.perform d
  let elapsed := toString ((← IO.monoMsNow) - start)
  return Command.answer ⟨← isStyled, elapsed, 1⟩ d.cwdPath report

end ClientBoundary

/-- Runs the command that the words ask for. -/
def main (words : List String) : IO UInt32 := do
  let answer ←
    match ClientBoundary.Command.parse words with
    | .ok command => command.execute
    | .error e => pure (ClientBoundary.Command.refuse e)
  IO.print answer.output
  IO.eprint answer.complaint
  return answer.code.toUInt32
