import ComputeTopology.Proofs.Permitted

/-!
# One change during a survey

A machine answers from one capture up to some probe and from another one from then on. An attempt
that the change falls into never finds anything: its two readings of the generation differ
(`attempt_switched_ne_some`). If it is answered to its end, the next attempt sees the new capture
only and finds what there is; but what the attempt asks after the change was announced by the old
capture, and where the new one does not have it the survey ends with that fault
(`attempt_switched_error`). A new capture that covers the old one has all that is asked.
-/

namespace ComputeTopology

namespace Capture

/-- Capture `a` answers up to probe number `k`, and `b` from there on. -/
def switch (a b : Capture) (k : Nat) : Machine (StateM Nat) :=
  scheduled fun n => if n < k then a else b

section Scheduled

variable {α : Type} {timeline : Nat → Capture}

theorem scheduled_number :
    ∀ (x : Survey α) {s j : Nat} {e : Exchange × Nat},
      (x.transcript (scheduled timeline) s)[j]? = some e → e.2 = s + j + 1
  | .done _, _, _, _, h => by simp at h
  | .ask p next, s, j, e, h => by
    rcases hp : (timeline s).answer p with f | v
    · rw [Survey.transcript_ask_error (t := s + 1) (Prod.ext hp rfl)] at h
      rcases j with _ | j <;> simp at h
      rw [← h]
    · rw [Survey.transcript_ask_ok (t := s + 1) (Prod.ext hp rfl)] at h
      rcases j with _ | j
      · simp at h
        rw [← h]
      · have := scheduled_number (next v) (s := s + 1) (j := j) (by simpa using h)
        omega
  | .pause _ next, _, _, _, h => scheduled_number next h

theorem scheduled_run_snd :
    ∀ (x : Survey α) (s : Nat), (x.run (scheduled timeline) s).2
      = s + (x.transcript (scheduled timeline) s).length
  | .done _, _ => rfl
  | .ask p next, s => by
    rcases hp : (timeline s).answer p with f | v
    · rw [Survey.transcript_ask_error (t := s + 1) (Prod.ext hp rfl),
        Survey.run_ask_error (t := s + 1) (Prod.ext hp rfl)]
      rfl
    · rw [Survey.transcript_ask_ok (t := s + 1) (Prod.ext hp rfl),
        Survey.run_ask_ok (t := s + 1) (Prod.ext hp rfl), scheduled_run_snd (next v),
        List.length_cons]
      omega
  | .pause _ next, s => scheduled_run_snd next s

theorem number_of_mem_scheduled {x : Survey α} {s : Nat} {e : Exchange × Nat}
    (h : e ∈ x.transcript (scheduled timeline) s) :
    s < e.2 ∧ e.2 ≤ (x.run (scheduled timeline) s).2 := by
  obtain ⟨j, hj⟩ := List.getElem?_of_mem h
  have hnumber := scheduled_number x hj
  have hlt := (List.getElem?_eq_some_iff.1 hj).1
  rw [scheduled_run_snd]
  omega

end Scheduled

section Switch

variable {α : Type} {a b : Capture} {k s : Nat}

/-- An exchange is answered by the one capture or the other, as its number says. -/
theorem agrees_switch {x : Survey α} {e : Exchange × Nat} (h : e ∈ x.transcript (switch a b k) s) :
    e.1.Agrees (if k < e.2 then b else a).answer := by
  have hagree := agrees_of_serves (scheduled_serves _) x s e h
  have hlt := (number_of_mem_scheduled h).1
  have hiff : e.2 - 1 < k ↔ ¬ k < e.2 := by omega
  simpa only [hiff, ite_not] using hagree

theorem run_switch_late (x : Survey α) (h : k ≤ s) :
    (x.run (switch a b k) s).1 = x.eval b.answer := by
  refine Survey.run_fst_of_agrees x s fun e he => ?_
  have hlt := (number_of_mem_scheduled he).1
  have hagree := agrees_switch he
  rwa [if_pos (by omega)] at hagree

/-- An attempt that the change falls into finds nothing. -/
theorem attempt_switched_ne_some {number : UInt32} (hgen : a.generation ≠ b.generation)
    (hfirst : s < k)
    (hlast : k < s + ((Survey.attempt number).transcript (switch a b k) s).length) {t : Nat}
    {r : Snapshot × Tally} :
    (Survey.attempt number).run (switch a b k) s ≠ (.ok (some r), t) := by
  intro h
  obtain ⟨u, middle, hends⟩ := Survey.transcript_of_accepted h
  have hu : u = s + 1 := scheduled_number (Survey.attempt number) (j := 0)
    (e := (⟨.generation, .ok r.1.generation⟩, u)) (by rw [← switch, hends]; rfl)
  have ht : t = s + ((Survey.attempt number).transcript (switch a b k) s).length :=
    (congrArg Prod.snd h).symm.trans (scheduled_run_snd _ _)
  have hbegin := agrees_switch (x := Survey.attempt number) (a := a) (b := b) (k := k) (s := s)
    (e := (⟨.generation, .ok r.1.generation⟩, u)) (by rw [hends]; simp)
  have hend := agrees_switch (x := Survey.attempt number) (a := a) (b := b) (k := k) (s := s)
    (e := (⟨.generation, .ok r.1.generation⟩, t)) (by rw [hends]; simp)
  rw [if_neg (by omega)] at hbegin
  rw [if_pos (by omega)] at hend
  exact hgen ((Except.ok.inj hbegin).symm.trans (Except.ok.inj hend))

/-- An attempt fails only where it asks the new capture for something that only the old one has, and
that is the last thing it asks for. -/
theorem attempt_switched_error {number : UInt32} {f : Fault} {t : Nat}
    (h : (Survey.attempt number).run (switch a b k) s = (.error f, t)) :
    ∃ before p, (Survey.attempt number).transcript (switch a b k) s
        = before ++ [(⟨p, .error f⟩, t)]
      ∧ (∀ e ∈ before, e.1.fault? = none) ∧ k < t
      ∧ b.answer p = .error f ∧ ¬ b.Covers a := by
  obtain ⟨before, p, hbefore, hp⟩ := Survey.exists_fault_of_within _
    (Survey.within_attempt [] number) h
  have hmem : (⟨p, .error f⟩, t) ∈ (Survey.attempt number).transcript (switch a b k) s := by
    rw [hbefore]
    simp
  have hlast := agrees_switch hmem
  have hagrees : ∀ e ∈ before.map (·.1), ∃ w ≤ t, e.Agrees (if k < w then b else a).answer := by
    intro e he
    obtain ⟨x, hx, rfl⟩ := List.mem_map.1 he
    have hx' : x ∈ (Survey.attempt number).transcript (switch a b k) s := by
      rw [hbefore]
      exact List.mem_append_left _ hx
    have hle := (number_of_mem_scheduled hx').2
    rw [← switch, h] at hle
    exact ⟨x.2, hle, agrees_switch hx'⟩
  -- Whatever was asked before the change was announced by the capture that answered it.
  have hlate : k < t := by
    by_contra hearly
    rw [if_neg hearly] at hlast
    obtain ⟨v, hv⟩ := exists_answer (c := a) (fun e he => by
      obtain ⟨w, hw, hagree⟩ := hagrees e he
      rw [if_neg (by omega)] at hagree
      exact ⟨a, .refl a, hagree⟩) hp
    cases hlast.trans hv
  rw [if_pos hlate] at hlast
  have hsilent : ∀ e ∈ before, e.1.fault? = none := by
    obtain ⟨before', _, hbefore', hsilent⟩ := Survey.transcript_of_run_error _ h
    obtain ⟨rfl, -⟩ := List.append_inj' (hbefore.symm.trans hbefore') rfl
    exact hsilent
  refine ⟨before, p, hbefore, hsilent, hlate, hlast.symm, fun hcovers => ?_⟩
  obtain ⟨v, hv⟩ := exists_answer (c := b) (fun e he => by
    obtain ⟨w, -, hagree⟩ := hagrees e he
    split_ifs at hagree
    · exact ⟨b, .refl b, hagree⟩
    · exact ⟨a, hcovers, hagree⟩) hp
  cases hlast.trans hv

/-- `c` has whatever the survey asks the machine for from probe number `k` on. -/
def HasFrom (c : Capture) (k : Nat) (M : Machine (StateM Nat)) (x : Survey α) (s : Nat) : Prop :=
  ∀ e ∈ x.transcript M s, k < e.2 → ∃ v, c.answer e.1.probe = .ok v

/-- A run that ends with a value found whatever it asked for. -/
theorem hasFrom_of_run_ok {x : Survey α} {v : α} {t : Nat}
    (h : x.run (switch a b k) s = (.ok v, t)) : b.HasFrom k (switch a b k) x s := by
  intro e he hlate
  have hagree := agrees_switch he
  have hok := Survey.answer_of_run_ok x h e he
  rw [if_pos hlate] at hagree
  rcases hv : e.1.answer with f | w
  · simp [Exchange.fault?, hv] at hok
  · exact ⟨w, hagree.symm.trans hv⟩

/-- The attempts after one that was answered to its end see the new capture only. -/
theorem run_settled_switched {backoff : Backoff} (hattempts : 2 ≤ backoff.maxAttempts) {t : Nat}
    (hrun : (Survey.attempt 1).run (switch a b k) s = (.ok none, t)) (hlate : k ≤ t)
    {S : Snapshot} {tally : Tally}
    (h : (Survey.attempt 1).eval b.answer = .ok (some (S, tally))) :
    ((Survey.settled backoff).run (switch a b k) s).1
      = .ok (some (S, { tally with attempts := 2 })) := by
  obtain ⟨left, hleft⟩ : ∃ left, backoff.attempts.toNat = left + 2 := by
    have : 2 ≤ backoff.maxAttempts.toNat := UInt32.le_iff_toNat_le.1 hattempts
    exact ⟨backoff.attempts.toNat - 2, by rw [backoff.attempts_toNat]; omega⟩
  have hfirst : (Survey.attempt (.ofNat 1)).run (switch a b k) s = (.ok none, t) := hrun
  obtain ⟨t', hsecond⟩ : ∃ t', (Survey.attempt (.ofNat (1 + 1))).run (switch a b k) t
      = (.ok (some (S, { tally with attempts := 2 })), t') :=
    ⟨_, Prod.ext ((run_switch_late _ hlate).trans (Survey.eval_attempt_number h 2)) rfl⟩
  have hwait : ((switch a b k).wait (backoff.delay (.ofNat 1)) t).2 = t := rfl
  rw [Survey.settled, hleft, Survey.run_attempts_succ, hfirst]
  dsimp only
  rw [if_neg (Nat.succ_ne_zero left), hwait, Survey.run_attempts_succ, hsecond]

end Switch

end Capture

/-- One change of the capture in the middle of the first attempt. If the new capture has what that
attempt still asks for, and it does if it covers the old one, then the second attempt finds what any
survey of the new capture finds. If not, then the first probe that the new capture has no answer to
is the last one of all, its fault ends the operation, and nothing is published. -/
theorem take_switched {a b : Capture} (hgen : a.generation ≠ b.generation) (p : Publisher)
    (hattempts : 2 ≤ p.backoff.maxAttempts) {s k : Nat} (hfirst : s < k)
    (hlast : k < s + ((Survey.attempt 1).transcript (Capture.switch a b k) s).length) :
    ∃ (S : Snapshot) (tally : Tally),
      (∀ q : Publisher, q.take Capture.machine b = ((.ok (), q.publish S tally), b))
      ∧ (b.HasFrom k (Capture.switch a b k) (Survey.attempt 1) s ↔
        ∃ t, p.take (Capture.switch a b k) s
          = ((.ok (), p.publish S { tally with attempts := 2 }), t))
      ∧ (¬ b.HasFrom k (Capture.switch a b k) (Survey.attempt 1) s →
        ∃ before probe resource detail t,
          (Survey.attempt 1).transcript (Capture.switch a b k) s
            = before ++ [(⟨probe, .error (.unavailable resource detail)⟩, t)]
          ∧ (∀ e ∈ before, e.1.fault? = none) ∧ k < t
          ∧ b.answer probe = .error (.unavailable resource detail)
          ∧ (Survey.settled p.backoff).transcript (Capture.switch a b k) s
            = (Survey.attempt 1).transcript (Capture.switch a b k) s
          ∧ p.take (Capture.switch a b k) s = ((.error (.unavailable resource detail), p), t))
      ∧ (b.Covers a → b.HasFrom k (Capture.switch a b k) (Survey.attempt 1) s) := by
  obtain ⟨S, tally, heval⟩ := b.exists_attempt 1
  refine ⟨S, tally, Capture.take_machine heval, ?_⟩
  rcases hrun : (Survey.attempt 1).run (Capture.switch a b k) s with ⟨f | _ | r, t⟩
  · obtain ⟨before, probe, hbefore, hsilent, hlate, hanswer, hcovers⟩ :=
      Capture.attempt_switched_error hrun
    have hmissing : ¬ b.HasFrom k (Capture.switch a b k) (Survey.attempt 1) s := fun h => by
      obtain ⟨v, hv⟩ := h (⟨probe, .error f⟩, t) (by rw [hbefore]; simp) hlate
      cases hanswer.symm.trans hv
    have htake : p.take (Capture.switch a b k) s = ((.error f, p), t) := by
      rw [Publisher.take_run, Survey.run_settled hrun (by rintro ⟨⟩)]
      rfl
    obtain ⟨resource, detail, rfl⟩ := Capture.unavailable_of_answer hanswer
    refine ⟨⟨fun h => absurd h hmissing, fun ⟨t', h⟩ => ?_⟩, fun _ => ?_, fun h => absurd h hcovers⟩
    · cases htake.symm.trans h
    · exact ⟨before, probe, resource, detail, t, hbefore, hsilent, hlate, hanswer,
        Survey.transcript_settled hrun (by rintro ⟨⟩), htake⟩
  · have hend : t = s + ((Survey.attempt 1).transcript (Capture.switch a b k) s).length :=
      (congrArg Prod.snd hrun).symm.trans (Capture.scheduled_run_snd _ _)
    have hhas := Capture.hasFrom_of_run_ok hrun
    have htake : ∃ t, p.take (Capture.switch a b k) s
        = ((.ok (), p.publish S { tally with attempts := 2 }), t) := by
      refine ⟨_, Prod.ext ?_ rfl⟩
      rw [Publisher.take_run]
      exact congrArg p.settle
        (Capture.run_settled_switched hattempts hrun (by omega) heval)
    exact ⟨⟨fun _ => htake, fun _ => hhas⟩, fun h => absurd hhas h, fun _ => hhas⟩
  · exact absurd hrun (Capture.attempt_switched_ne_some hgen hfirst hlast)

theorem take_switched_growing :
    let a := growing 0
    let b := growing 4
    let M := Capture.switch a b 4
    a.generation ≠ b.generation ∧ 2 ≤ ({} : Publisher).backoff.maxAttempts ∧ 0 < 4
      ∧ 4 < 0 + ((Survey.attempt 1).transcript M 0).length ∧ b.Covers a
      ∧ ∃ (S : Snapshot) (tally : Tally),
        (∀ q : Publisher, q.take Capture.machine b = ((.ok (), q.publish S tally), b))
        ∧ (b.HasFrom 4 M (Survey.attempt 1) 0 ↔
          ∃ t, Publisher.take M {} 0
            = ((.ok (), Publisher.publish {} S { tally with attempts := 2 }), t))
        ∧ (¬ b.HasFrom 4 M (Survey.attempt 1) 0 →
          ∃ before probe resource detail t,
            (Survey.attempt 1).transcript M 0
              = before ++ [(⟨probe, .error (.unavailable resource detail)⟩, t)]
            ∧ (∀ e ∈ before, e.1.fault? = none) ∧ 4 < t
            ∧ b.answer probe = .error (.unavailable resource detail)
            ∧ (Survey.settled ({} : Publisher).backoff).transcript M 0
              = (Survey.attempt 1).transcript M 0
            ∧ Publisher.take M {} 0 = ((.error (.unavailable resource detail), {}), t))
        ∧ (b.Covers a → b.HasFrom 4 M (Survey.attempt 1) 0) := by
  intro a b M
  have hgen : a.generation ≠ b.generation := by decide
  have hlast : 4 < 0 + ((Survey.attempt 1).transcript M 0).length := by decide +kernel
  exact ⟨hgen, by decide, by decide, hlast, by decide,
    take_switched hgen {} (by decide) (by decide) hlast⟩

/-- The second node goes away after the first one has been read. -/
theorem take_switched_lost_node :
    let host : CapturedNode := .cpu 4
    let a : Capture := { generation := 1, nodes := [host, .gpu 7] }
    let b : Capture := { generation := 2, nodes := [host] }
    let M := Capture.switch a b 5
    a.generation ≠ b.generation ∧ 2 ≤ ({} : Publisher).backoff.maxAttempts ∧ 0 < 5
      ∧ 5 < 0 + ((Survey.attempt 1).transcript M 0).length
      ∧ Publisher.take M {} 0 = ((.error (.unavailable "node 1" "no such node"), {}), 6) := by
  intro host a b M
  have hrun : (Survey.attempt 1).run M 0 = (.error (.unavailable "node 1" "no such node"), 6) :=
    Prod.ext (by decide +kernel) (by decide +kernel)
  refine ⟨by decide, by decide, by decide, by decide +kernel, ?_⟩
  rw [Publisher.take_run, Survey.run_settled hrun (by rintro ⟨⟩)]
  rfl

end ComputeTopology
