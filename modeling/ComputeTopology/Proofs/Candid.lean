import ComputeTopology.Proofs.Permitted
import ComputeTopology.Proofs.Result
import ComputeTopology.Sysfs.Machine

/-!
# Candid machines

A machine is candid if a node that says it has no peer links also counts none. The machines of this
library are: those that answer from captures (`Machine.Serves.candid`) and the driver's tree over
any files, however these change (`Sysfs.machine_candid`). The tree's machine has its exposure as a
state over that of the files; `Machine.flat` puts the two side by side. So what is said of the flat
machine holds of the tree's own: a survey finds the same over both (`Survey.run_flat`), and a
publisher holds the same afterwards (`Publisher.take_flat`).
-/

namespace ComputeTopology

/-- A node that says it has no peer links counts none. -/
def Machine.Candid {σ : Type} (M : Machine (StateM σ)) : Prop :=
  ∀ ⦃i s r t⦄, M.answer (.report i) s = (.ok r, t) → r.peersPresent = false → r.peerLinks = 0

theorem Machine.Serves.candid {σ : Type} {M : Machine (StateM σ)} {current : σ → Capture}
    (hM : M.Serves current) : M.Candid := by
  intro i s r t h hpeers
  have hserved := hM (.report i) s
  rw [h] at hserved
  obtain ⟨n, -, rfl⟩ := Capture.exists_of_answer_report hserved.symm
  simpa [CapturedNode.report] using hpeers

section Flat

variable {ε τ α : Type}

/-- The machine with its state and that of its monad side by side. -/
def Machine.flat (M : Machine (StateT ε (StateM τ))) : Machine (StateM (ε × τ)) where
  answer p := fun s =>
    let x := M.answer p s.1 s.2
    (x.1.1, x.1.2, x.2)
  wait ms := fun s =>
    let x := M.wait ms s.1 s.2
    ((), x.1.2, x.2)

/-- A survey finds the same, whichever way the two states are held. -/
theorem Survey.run_flat (M : Machine (StateT ε (StateM τ))) :
    ∀ (x : Survey α) (s : ε × τ), x.run M.flat s =
      (((x.run M s.1 s.2).1.1, (x.run M s.1 s.2).1.2, (x.run M s.1 s.2).2) : _ × ε × τ)
  | done _, _ => rfl
  | ask p next, s => by
    rcases h : M.answer p s.1 s.2 with ⟨⟨f | a, e⟩, t⟩
    · have hflat : M.flat.answer p s = (.error f, e, t) := by simp [Machine.flat, h]
      rw [run_ask_error hflat]
      simp only [run, Bind.bind, StateT.bind, h]
      rfl
    · have hflat : M.flat.answer p s = (.ok a, e, t) := by simp [Machine.flat, h]
      rw [run_ask_ok hflat, run_flat M (next a)]
      simp only [run, Bind.bind, StateT.bind, h]
  | pause ms next, s => by
    rw [run_pause, run_flat M next]
    rfl

theorem Publisher.take_flat (M : Machine (StateT ε (StateM τ))) (p : Publisher) (s : ε × τ) :
    p.take M.flat s =
      ((p.take M s.1 s.2).1.1, (p.take M s.1 s.2).1.2, (p.take M s.1 s.2).2) := by
  rw [take_run, Survey.run_flat]
  rfl

end Flat

theorem PropertySheet.report_candid {sheet : PropertySheet} {gpuId : UInt32} {r : Report}
    (h : sheet.report gpuId = .ok r) (hpeers : r.peersPresent = false) : r.peerLinks = 0 := by
  unfold report at h
  obtain ⟨peerLinks, -, h⟩ := bind_eq_ok.1 h
  obtain ⟨common, -, h⟩ := bind_eq_ok.1 h
  obtain ⟨profile, -, h⟩ := bind_eq_ok.1 h
  cases h
  simpa using hpeers

namespace Sysfs

variable {τ α β : Type}

/-- Whatever a reader of files reads without a fault has the property. -/
def Yields (P : α → Prop) (x : ExceptT FileFault (StateM τ) α) : Prop :=
  ∀ {s a s'}, x.run s = (.ok a, s') → P a

theorem yields_bind {P : β → Prop} {x : ExceptT FileFault (StateM τ) α}
    {f : α → ExceptT FileFault (StateM τ) β} (hf : ∀ a, Yields P (f a)) :
    Yields P (x >>= f) := by
  intro s b s' h
  rw [ExceptT.run_bind] at h
  simp only [Bind.bind, StateT.bind] at h
  rcases hx : x.run s with ⟨e | a, u⟩ <;> rw [hx] at h
  · cases h
  · exact hf a h

theorem yields_mk {P : α → Prop} {x : Except FileFault α} (h : ∀ a, x = .ok a → P a) :
    Yields P (ExceptT.mk (pure x) : ExceptT FileFault (StateM τ) α) := by
  intro s a s' hx
  exact h a (Prod.mk.inj hx).1

/-- What is read of an exposed node has the property as well. -/
theorem of_ofNode {P : α → Prop} {e : Exposure} {i : UInt32}
    {read : UInt32 → ExceptT FileFault (StateM τ) α} (hread : ∀ id, Yields P (read id)) {s : τ}
    {a : α} (h : (ofNode e i read s).1 = .ok a) : P a := by
  unfold ofNode at h
  rcases hid : e.number i with f | id <;> rw [hid] at h
  · cases h
  simp only [Bind.bind, StateT.bind] at h
  rcases hx : (read id).run s with ⟨f | b, u⟩ <;> rw [hx] at h <;> cases h
  exact hread id hx

theorem machine_candid (fs : Files (StateM τ)) (layout : Layout) (wait : UInt64 → StateM τ Unit) :
    (machine fs layout wait).flat.Candid := by
  intro i s r t h
  have hread : ∀ id, Yields (fun r => r.peersPresent = false → r.peerLinks = 0)
      (readReport fs layout id) := fun id =>
    yields_bind fun sheet => yields_bind fun gpuId => yields_mk fun r hr =>
      PropertySheet.report_candid hr
  exact of_ofNode hread (e := s.1) (i := i) (s := s.2) (Prod.mk.inj h).1

end Sysfs

end ComputeTopology
