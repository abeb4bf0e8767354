import ComputeTopology.Backoff
import ComputeTopology.Survey.Attempt
/-!
# Publishing snapshots

A survey of a machine is tried until an attempt finds the generation unchanged, at most as often as
the backoff allows. The publisher holds the last snapshot so found and the tally of its attempt. A
survey that fails leaves both as they were, and `release` lets go of the snapshot only.

Every publication carries a serial number of its own, so that two of them can be told apart although
their snapshots are equal.
-/

namespace ComputeTopology

/-- Attempts from number `attempt` on, until one succeeds or `left` of them have been made. -/
def Survey.attempts (backoff : Backoff) : (attempt left : Nat) → Survey (Option (Snapshot × Tally))
  | _, 0 => return none
  | attempt, left + 1 => do
    match ← Survey.attempt (.ofNat attempt) with
    | some found => return some found
    | none =>
      if left = 0 then return none
      else .pause (backoff.delay (.ofNat attempt)) (attempts backoff (attempt + 1) left)

/-- All attempts that the backoff allows. -/
def Survey.settled (backoff : Backoff) : Survey (Option (Snapshot × Tally)) :=
  attempts backoff 1 backoff.attempts.toNat

structure Publication where
  serial : Nat
  snapshot : Snapshot
  deriving DecidableEq

structure Publisher where
  backoff : Backoff := {}
  current : Option Publication := none
  tally : Option Tally := none
  /-- How many snapshots have been published. -/
  issued : Nat := 0

namespace Publisher

def publish (p : Publisher) (snapshot : Snapshot) (tally : Tally) : Publisher :=
  { p with
    current := some ⟨p.issued, snapshot⟩
    tally := some tally
    issued := p.issued + 1 }

def release (p : Publisher) : Publisher :=
  { p with current := none }

/-- The published snapshot. -/
def snapshot (p : Publisher) : Except Fault Snapshot :=
  match p.current with
  | some publication => .ok publication.snapshot
  | none => .error .noSnapshot

/-- What becomes of the publisher when a survey has ended. -/
def settle (p : Publisher) :
    Except Fault (Option (Snapshot × Tally)) → Except Fault Unit × Publisher
  | .ok (some (snapshot, tally)) => (.ok (), p.publish snapshot tally)
  | .ok none => (.error (.inconsistent p.backoff.attempts), p)
  | .error e => (.error e, p)

variable {m : Type → Type} [Monad m]

/-- Surveys the machine and publishes the snapshot. -/
def take (machine : Machine m) (p : Publisher) : m (Except Fault Unit × Publisher) := do
  return p.settle (← (Survey.settled p.backoff).run machine)

/-- The published platform, after a survey if nothing is published. -/
def acquire (machine : Machine m) (p : Publisher) : m (Except Fault Platform × Publisher) := do
  match p.current with
  | some publication => return (.ok publication.snapshot.platform, p)
  | none =>
    let (taken, p) ← p.take machine
    match taken with
    | .ok () => return (p.snapshot.map (·.platform), p)
    | .error e => return (.error e, p)

end Publisher

end ComputeTopology
