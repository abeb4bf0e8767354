import ComputeTopology.Fault
import ComputeTopology.Hardware.Node
import ComputeTopology.Hardware.Platform
/-!
# Surveys

A machine is known only through the answers it gives to single probes, each of which may fail. A
`Survey` is a course of questioning: it ends with a value, or asks one probe and goes on with the
answer, or pauses. It holds no state of the machine and cannot fail by itself; a probe that fails
ends the run with the fault of that probe (`run_ask_error`).

A `Machine m` answers probes in a monad `m`. For a machine with a state `σ` that changes as it is
asked, `m` is `StateM σ`, and a run goes from state to state (`run_ask_ok`, `run_bind`).
-/

namespace ComputeTopology

/-- What a node says of itself: its profile and how many of its links are peer links. -/
structure Report where
  profile : Profile
  /-- The node says that it has peer links. -/
  peersPresent : Bool
  peerLinks : UInt32
  deriving DecidableEq, Inhabited

inductive Probe
  | generation
  | platform
  | report (node : UInt32)
  | bank (node index : UInt32)
  | cache (node index : UInt32)
  /-- An entry of the node's standard table, or of its table of peer links. -/
  | link (node index : UInt32) (peer : Bool)
  | processors
  /-- The caches of a CPU node, as far as the given processors show them. -/
  | processorCaches (node : UInt32) (table : List Processor)
  deriving DecidableEq

/-- What the probe is answered with. A link that is not supported is answered with `none`. -/
abbrev Probe.Answer : Probe → Type
  | generation => UInt32
  | platform => Platform
  | report _ => Report
  | bank _ _ => MemoryBank
  | cache _ _ => Cache
  | link _ _ _ => Option Link
  | processors => List Processor
  | processorCaches _ _ => List Cache

inductive Survey (α : Type) : Type
  | done (value : α)
  | ask (probe : Probe) (next : probe.Answer → Survey α)
  | pause (milliseconds : UInt64) (next : Survey α)

structure Machine (m : Type → Type) where
  answer : (probe : Probe) → m (Except Fault probe.Answer)
  /-- Lets the given number of milliseconds go by. -/
  wait : UInt64 → m Unit

namespace Survey

variable {α β γ : Type}

def bind : Survey α → (α → Survey β) → Survey β
  | done a, f => f a
  | ask p next, f => ask p fun answer => (next answer).bind f
  | pause ms next, f => pause ms (next.bind f)

instance : Monad Survey where
  pure := done
  bind := bind

/-- Asks one probe. -/
def probe (p : Probe) : Survey p.Answer :=
  ask p done

theorem bind_done (x : Survey α) : x.bind done = x := by
  induction x with
  | done a => rfl
  | ask p next ih => simp [bind, ih]
  | pause ms next ih => simp [bind, ih]

theorem bind_assoc (x : Survey α) (f : α → Survey β) (g : β → Survey γ) :
    (x.bind f).bind g = x.bind fun a => (f a).bind g := by
  induction x with
  | done a => rfl
  | ask p next ih => simp [bind, ih]
  | pause ms next ih => simp [bind, ih]

instance : LawfulMonad Survey :=
  LawfulMonad.mk' Survey bind_done (fun _ _ => rfl) bind_assoc

/-- Puts the questions to a machine. The first probe that fails ends the run. -/
def run {m : Type → Type} [Monad m] (machine : Machine m) : Survey α → m (Except Fault α)
  | done a => pure (.ok a)
  | ask p next => do
    match ← machine.answer p with
    | .ok answer => (next answer).run machine
    | .error e => pure (.error e)
  | pause ms next => do
    machine.wait ms
    next.run machine

section State

variable {σ : Type} {M : Machine (StateM σ)} {s t : σ}

@[simp] theorem run_done (a : α) : (done a).run M s = (.ok a, s) := rfl

theorem run_ask_ok {p : Probe} {next : p.Answer → Survey α} {answer : p.Answer}
    (h : M.answer p s = (.ok answer, t)) : (ask p next).run M s = (next answer).run M t := by
  simp [run, Bind.bind, StateT.bind, h]

theorem run_ask_error {p : Probe} {next : p.Answer → Survey α} {e : Fault}
    (h : M.answer p s = (.error e, t)) : (ask p next).run M s = (.error e, t) := by
  simp only [run, Bind.bind, StateT.bind, h]
  rfl

theorem run_pause {ms : UInt64} {next : Survey α} :
    (pause ms next).run M s = next.run M (M.wait ms s).2 := rfl

/-- A run of two surveys in a row. -/
theorem run_bind (x : Survey α) (f : α → Survey β) (s : σ) :
    (x.bind f).run M s =
      match x.run M s with
      | (.ok a, t) => (f a).run M t
      | (.error e, t) => (.error e, t) := by
  induction x generalizing s with
  | done a => rfl
  | ask p next ih =>
    rcases h : M.answer p s with ⟨_ | answer, t⟩
    · rw [run_ask_error h, bind, run_ask_error h]
    · rw [run_ask_ok h, bind, run_ask_ok h, ih]
  | pause ms next ih => rw [bind, run_pause, run_pause, ih]

end State

end Survey

end ComputeTopology
