import ComputeTopology.Json.Codec
/-!
# Backoff

How often a survey is tried and how long it waits in between: the wait doubles with every failed
attempt up to a limit. A policy without attempts still allows one.
-/

namespace ComputeTopology

structure Backoff where
  maxAttempts : UInt32 := 16
  /-- The wait after the first failed attempt, in milliseconds. -/
  initialDelay : UInt64 := 1
  maxDelay : UInt64 := 64
  deriving DecidableEq, Inhabited

namespace Backoff

/-- Tries without waiting. -/
def immediate (attempts : UInt32) : Backoff :=
  ⟨attempts, 0, 0⟩

def attempts (b : Backoff) : UInt32 :=
  max b.maxAttempts 1

/-- The wait after failed attempt number `attempt`. Attempts are counted from one, and zero
waits like one; after the sixty-fourth the wait grows no more. -/
def delay (b : Backoff) (attempt : UInt32) : UInt64 :=
  let shift := min (attempt.toNat - 1) 63
  let product := b.initialDelay.toNat <<< shift
  min (if product < UInt64.size then .ofNat product else .ofNat (UInt64.size - 1)) b.maxDelay

def codec : Codec Backoff :=
  .record [
    .of "max_attempts" .uint32 (·.maxAttempts) fun x b => { b with maxAttempts := x },
    .of "initial_backoff_ms" .uint64 (·.initialDelay) fun x b => { b with initialDelay := x },
    .of "max_backoff_ms" .uint64 (·.maxDelay) fun x b => { b with maxDelay := x }] {}

end Backoff

end ComputeTopology
