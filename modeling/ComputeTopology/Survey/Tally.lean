import ComputeTopology.Text.Numeral
/-!
# Tallies

What one attempt at a survey counted. The tally of the last successful attempt is kept beside the
published snapshot; its `attempts` says which attempt that was.
-/

namespace ComputeTopology

structure Tally where
  attempts : UInt32 := 0
  nodes : UInt32 := 0
  banks : UInt32 := 0
  caches : UInt32 := 0
  /-- Direct links from the standard tables. -/
  directLinks : UInt32 := 0
  peerLinks : UInt32 := 0
  /-- Entries of a link table that are not supported. -/
  skippedLinks : UInt32 := 0
  indirectLinks : UInt32 := 0
  deriving DecidableEq, Inhabited

namespace Tally

def countLink (peer : Bool) (t : Tally) : Tally :=
  if peer then { t with peerLinks := t.peerLinks + 1 }
  else { t with directLinks := t.directLinks + 1 }

def countSkipped (t : Tally) : Tally :=
  { t with skippedLinks := t.skippedLinks + 1 }

def countIndirect (t : Tally) : Tally :=
  { t with indirectLinks := t.indirectLinks + 1 }

def countNode (banks caches : Nat) (t : Tally) : Tally :=
  { t with
    nodes := t.nodes + 1
    banks := t.banks + .ofNat banks
    caches := t.caches + .ofNat caches }

def totalLinks (t : Tally) : UInt32 :=
  t.directLinks + t.peerLinks + t.indirectLinks

def summary (t : Tally) : String :=
  let count (n : UInt32) (what : String) : String := Text.decimal n.toNat ++ " " ++ what
  count t.nodes "nodes, " ++ count t.banks "banks, " ++ count t.caches "caches, "
    ++ count t.totalLinks "links (" ++ count t.directLinks "direct, "
    ++ count t.peerLinks "p2p, " ++ count t.indirectLinks "indirect, "
    ++ count t.skippedLinks "skipped) after " ++ count t.attempts "attempt(s)"

end Tally

end ComputeTopology
