import ComputeTopology.Replay
import ComputeTopology.Proofs.Retry

/-!
# No snapshot mixes two topologies

A machine may answer every probe from another capture (`Machine.Serves`). If along a run a
generation once left does not come back and stands for one capture only (`Steady`), then whatever a
taken snapshot holds was read from the one capture of its generation: two equal readings of the
generation pin down all answers between them (`Steady.eq_of_ends`), and with fixed answers an
attempt finds what any survey of that capture finds (`take_machine`). What the attempts before the
last one read is in their own progress, which no later attempt sees.
-/

namespace ComputeTopology

namespace Capture

/-- Surveying a capture is reading off its answers. -/
theorem run_machine {α : Type} (x : Survey α) (c : Capture) :
    x.run machine c = (x.eval c.answer, c) :=
  Survey.run_of_keeps ⟨fun _ _ h => h, fun _ _ h => h⟩ x

/-- A survey of a capture ends with what the first attempt finds. -/
theorem run_settled {c : Capture} {S : Snapshot} {tally : Tally}
    (h : (Survey.attempt 1).eval c.answer = .ok (some (S, tally))) (b : Backoff) :
    (Survey.settled b).run machine c = (.ok (some (S, tally)), c) :=
  Survey.run_settled ((run_machine _ c).trans (by rw [h])) (by rintro ⟨⟩)

theorem take_machine {c : Capture} {S : Snapshot} {tally : Tally}
    (h : (Survey.attempt 1).eval c.answer = .ok (some (S, tally))) (p : Publisher) :
    p.take machine c = ((.ok (), p.publish S tally), c) := by
  rw [Publisher.take_run, run_settled h]
  rfl

end Capture

section Serving

variable {σ : Type}

/-- Every probe is answered from the capture that is current then. It may have been replaced just
before, and while the machine waits. -/
def Machine.Serves (M : Machine (StateM σ)) (current : σ → Capture) : Prop :=
  ∀ p s, (M.answer p s).1 = (current (M.answer p s).2).answer p

/-- The captures that answered a run, probe by probe. -/
def Survey.captures {α : Type} (M : Machine (StateM σ)) (current : σ → Capture) (x : Survey α)
    (s : σ) : List Capture :=
  (x.transcript M s).map fun e => current e.2

/-- Along the list a generation, once left, does not come back, and it names one capture. -/
structure Steady (cs : List Capture) : Prop where
  no_return : ∀ {a b c : Capture}, [a, b, c].Sublist cs → a.generation = c.generation →
    b.generation = a.generation
  named : ∀ {a b : Capture}, a ∈ cs → b ∈ cs → a.generation = b.generation → a = b

/-- Between two captures of one generation there is no other. -/
theorem Steady.eq_of_ends {cs : List Capture} (h : Steady cs) {a z : Capture}
    {l m : List Capture} (hcs : cs = l ++ (a :: m ++ [z]))
    (haz : a.generation = z.generation) : ∀ b ∈ a :: m ++ [z], b = a := by
  intro b hb
  have hsub : ∀ x ∈ a :: m ++ [z], x ∈ cs := fun x hx => by
    rw [hcs]
    exact List.mem_append_right _ hx
  have hgen : b.generation = a.generation := by
    simp only [List.cons_append, List.mem_cons, List.mem_append, List.not_mem_nil, or_false] at hb
    rcases hb with rfl | hb | rfl
    · rfl
    · refine h.no_return (c := z) ?_ haz
      rw [hcs]
      refine List.Sublist.trans ?_ (List.sublist_append_right _ _)
      exact ((List.singleton_sublist.2 hb).append (List.Sublist.refl [z])).cons_cons a
    · exact haz.symm
  exact h.named (hsub b hb) (hsub a (by simp)) hgen

/-- A machine that answers its first probe from capture zero, the second from capture one, and so
on. Its state is the number of probes so far. -/
def Capture.scheduled (timeline : Nat → Capture) : Machine (StateM Nat) where
  answer p := fun n => ((timeline n).answer p, n + 1)
  wait _ := fun n => ((), n)

theorem Capture.scheduled_serves (timeline : Nat → Capture) :
    (scheduled timeline).Serves fun n => timeline (n - 1) := fun _ _ => rfl

/-- A counter that only grows is steady, if each of its values names one capture. -/
theorem Steady.of_pairwise_le {cs : List Capture}
    (hle : cs.Pairwise fun a b => a.generation ≤ b.generation)
    (hnamed : ∀ a ∈ cs, ∀ b ∈ cs, a.generation = b.generation → a = b) : Steady cs where
  no_return := by
    intro a b c hsub hac
    have h := hle.sublist hsub
    simp only [List.pairwise_cons, List.mem_cons, forall_eq_or_imp] at h
    exact UInt32.le_antisymm (hac ▸ h.2.1.1) h.1.1
  named := fun ha hb hab => hnamed _ ha _ hb hab

variable {M : Machine (StateM σ)} {current : σ → Capture} {s t : σ}

theorem agrees_of_serves {α : Type} (hM : M.Serves current) (x : Survey α) (s : σ) :
    ∀ e ∈ x.transcript M s, e.1.Agrees (current e.2).answer := by
  intro e he
  obtain ⟨u, hu⟩ := Survey.exists_answer_of_mem he
  have hserved := hM e.1.probe u
  rwa [hu] at hserved

/-- What an accepted attempt read is one capture, that of the snapshot's generation. -/
theorem accepted_unmixed (hM : M.Serves current) {b : Backoff} {n : UInt32} {u : σ} {S : Snapshot}
    {tally : Tally} (hsteady : Steady ((Survey.settled b).captures M current s))
    (h : Survey.Accepted M b s n u (S, tally) t) :
    ∃ c : Capture, c.generation = S.generation
      ∧ ∀ e ∈ (Survey.attempt n).transcript M u, current e.2 = c := by
  obtain ⟨before, htr⟩ := h.transcript_eq
  obtain ⟨v, middle, hends⟩ := Survey.transcript_of_accepted h.run_eq
  have hserved := agrees_of_serves hM (Survey.attempt n) u
  have hread : ∀ w, (⟨.generation, .ok S.generation⟩, w) ∈ (Survey.attempt n).transcript M u →
      (current w).generation = S.generation :=
    fun w hw => (Except.ok.inj (hserved _ hw)).symm
  have hv := hread v (by rw [hends]; simp)
  have ht := hread t (by rw [hends]; simp)
  refine ⟨current v, hv, fun e he => ?_⟩
  refine hsteady.eq_of_ends (l := before.map fun e => current e.2)
    (m := middle.map fun e => current e.2) (z := current t) ?_ (hv.trans ht.symm) _ ?_
  · rw [Survey.captures, htr, hends]
    simp
  · have := List.mem_map_of_mem (f := fun e : Exchange × σ => current e.2) he
    rw [hends] at this
    simpa using this

/-- A snapshot that is taken is that of one capture: the accepted attempt was answered by it from
beginning to end, and any publisher that surveys it alone publishes the same snapshot. -/
theorem take_unmixed (hM : M.Serves current) (p : Publisher) {p' : Publisher}
    (hsteady : Steady ((Survey.settled p.backoff).captures M current s))
    (htake : p.take M s = ((.ok (), p'), t)) :
    ∃ (S : Snapshot) (tally : Tally) (c : Capture) (n : UInt32) (u : σ),
      p' = p.publish S tally ∧ Survey.Accepted M p.backoff s n u (S, tally) t
      ∧ (∀ e ∈ (Survey.attempt n).transcript M u, current e.2 = c)
      ∧ c.generation = S.generation
      ∧ ∀ q : Publisher, q.take Capture.machine c
        = ((.ok (), q.publish S { tally with attempts := 1 }), c) := by
  obtain ⟨S, tally, hrun, hp'⟩ := Publisher.take_ok htake
  obtain ⟨n, u, hacc⟩ := Survey.exists_accepted hrun
  obtain ⟨c, hgen, hone⟩ := accepted_unmixed hM hsteady hacc
  have hagrees : ∀ e ∈ (Survey.attempt n).transcript M u, e.1.Agrees c.answer := by
    intro e he
    rw [← hone e he]
    exact agrees_of_serves hM _ _ e he
  have heval : (Survey.attempt n).eval c.answer = .ok (some (S, tally)) := by
    rw [← Survey.run_fst_of_agrees _ _ hagrees, hacc.run_eq]
  exact ⟨S, tally, c, n, u, hp', hacc, hone, hgen,
    Capture.take_machine (Survey.eval_attempt_number heval 1)⟩

/-- Two nodes up to the fourth probe, and three nodes from then on. -/
def growing (n : Nat) : Capture :=
  let host : CapturedNode := .cpu 4
  let gpu : CapturedNode := (CapturedNode.gpu 7).addLink (some { target := 0, weight := 20 })
  if n < 4 then { generation := 1, nodes := [host, gpu] }
  else { generation := 2, nodes := [host, gpu, gpu] }

theorem take_unmixed_growing :
    let M := Capture.scheduled growing
    let p' := (Publisher.take M {} 0).1.2
    Steady ((Survey.settled {}).captures M (fun n => growing (n - 1)) 0)
      ∧ Publisher.take M {} 0 = ((.ok (), p'), 18)
      ∧ p'.tally.map (·.attempts) = some 2
      ∧ ∃ (S : Snapshot) (tally : Tally) (c : Capture) (n : UInt32) (u : Nat),
        p' = Publisher.publish {} S tally ∧ Survey.Accepted M {} 0 n u (S, tally) 18
        ∧ (∀ e ∈ (Survey.attempt n).transcript M u, growing (e.2 - 1) = c)
        ∧ c.generation = S.generation
        ∧ ∀ q : Publisher, q.take Capture.machine c
          = ((.ok (), q.publish S { tally with attempts := 1 }), c) := by
  have htally : ((Publisher.take (Capture.scheduled growing) {} 0).1.2.tally.map (·.attempts))
      = some 2 := by decide +kernel
  intro M p'
  have hsteady : Steady ((Survey.settled {}).captures M (fun n => growing (n - 1)) 0) :=
    .of_pairwise_le (by decide +kernel) (by decide +kernel)
  have htake : Publisher.take M {} 0 = ((.ok (), p'), 18) :=
    Prod.ext (Prod.ext (by decide +kernel) rfl) (by decide +kernel)
  exact ⟨hsteady, htake, htally,
    take_unmixed (Capture.scheduled_serves growing) {} hsteady htake⟩

end Serving

end ComputeTopology
