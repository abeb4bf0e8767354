import ComputeTopology.Capture
import ComputeTopology.Publisher
/-!
# Replaying snapshots

A snapshot is replayed by surveying the capture that it leaves behind.
-/

namespace ComputeTopology

/-- What a new publisher makes of a capture. -/
def Capture.survey (c : Capture) (backoff : Backoff := {}) : Except Fault (Snapshot × Tally) :=
  match ((Survey.settled backoff).run machine c).1 with
  | .ok (some found) => .ok found
  | .ok none => .error (.inconsistent backoff.attempts)
  | .error e => .error e

def Snapshot.replay (s : Snapshot) : Except Fault Snapshot :=
  (Capture.ofSnapshot s).survey.map (·.1)

end ComputeTopology
