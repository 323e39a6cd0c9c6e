/-
The program: it reads the command line, the two files and the environment, and prints
what the session reports.
-/
import Sm83.CommandLine

namespace Sm83

/-- The bytes of a file, or nothing if it cannot be read. -/
def readFile? (path : String) : IO (Option (List Byte)) := do
  try
    return some (← IO.FS.readBinFile path).toList
  catch _ => return none

/-- Carries out a command line and gives the exit code. -/
def performCommandLine (args : List String) : IO UInt32 := do
  match CommandLine.parse args with
  | none =>
    IO.eprintln "usage: (disasm | run) ROM [options]"
    return ExitStatus.usage.code
  | some i =>
    let config := i.configPath (← IO.getEnv "XDG_CONFIG_HOME") (← IO.getEnv "HOME")
    let report := Session.perform i.action (← readFile? i.rom) (← readFile? config)
    IO.print report.output
    return report.status.code

end Sm83

def main (args : List String) : IO UInt32 := Sm83.performCommandLine args
