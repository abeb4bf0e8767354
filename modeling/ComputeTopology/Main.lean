import ComputeTopology.CommandLine.Program
import ComputeTopology.Files.Host
/-!
# The executable

Runs the program on the host's files.
-/

namespace ComputeTopology

/-- Sleeps; a wait beyond what the host can be asked for is cut to the longest that it can. -/
def hostWait (milliseconds : UInt64) : IO Unit :=
  IO.sleep (min milliseconds 0xFFFFFFFF).toUInt32

end ComputeTopology

def main (arguments : List String) : IO UInt32 := do
  let outcome ←
    ComputeTopology.CommandLine.run ComputeTopology.Files.host ComputeTopology.hostWait arguments
  (← IO.getStdout).putStr outcome.printed
  (← IO.getStderr).putStr outcome.reported
  return outcome.code
