import ComputeTopology.Publisher
import ComputeTopology.Proofs.Transcript

/-!
# Attempts in a row

An attempt is its content between two readings of the generation (`attempt_eq`); its number shows in
the tally only (`eval_attempt_number`). A survey that finds something ends with the attempt that
found it, whatever the attempts before it read (`exists_accepted`).
-/

namespace ComputeTopology

namespace Backoff

theorem attempts_toNat (b : Backoff) : b.attempts.toNat = max b.maxAttempts.toNat 1 := by
  change (if b.maxAttempts ≤ 1 then 1 else b.maxAttempts).toNat = _
  split_ifs with h
  · have : b.maxAttempts.toNat ≤ 1 := UInt32.le_iff_toNat_le.1 h
    rw [Nat.max_eq_right this]
    rfl
  · have : ¬ b.maxAttempts.toNat ≤ 1 := fun hn => h (UInt32.le_iff_toNat_le.2 hn)
    rw [Nat.max_eq_left (by omega)]

theorem exists_attempts (b : Backoff) : ∃ left, b.attempts.toNat = left + 1 :=
  ⟨b.attempts.toNat - 1, by rw [b.attempts_toNat]; omega⟩

end Backoff

namespace Survey

/-- What an attempt reads between its two readings of the generation. -/
def content : Survey (Platform × List Node × Tally) := do
  let platform ← probe .platform
  let (found, progress) ←
    (Course.entries (Course.node platform.nodes) 0 platform.nodes.toNat).run {}
  let read := (found.map (·.1), progress.tally)
  return (platform, if found.any (·.2) then read else Route.complete read.1 read.2)

/-- What becomes of a content between two readings of the generation. -/
def verdict (number first last : UInt32) (c : Platform × List Node × Tally) :
    Option (Snapshot × Tally) :=
  if first = last then some (⟨c.1, c.2.1, last⟩, { c.2.2 with attempts := number }) else none

theorem attempt_eq (number : UInt32) :
    attempt number = ask .generation fun first => content.bind fun c =>
      ask .generation fun last => done (verdict number first last c) := by
  unfold attempt content
  show (ask _ _).bind _ = _
  rw [bind]
  congr 1
  funext first
  change _ = ((probe .platform).bind _).bind _
  rw [bind_assoc]
  change (probe .platform).bind _ = _
  congr 1
  funext platform
  change _ = (Survey.bind _ _).bind _
  rw [bind_assoc]
  change Survey.bind _ _ = _
  congr 1
  funext x
  obtain ⟨found, progress⟩ := x
  simp only [Bind.bind, Pure.pure, bind, probe, verdict]
  congr 1
  funext last
  split <;> rfl

theorem verdict_eq_some {number first last : UInt32} {c : Platform × List Node × Tally}
    {S : Snapshot} {tally : Tally} (h : verdict number first last c = some (S, tally)) :
    first = S.generation ∧ last = S.generation ∧ S.platform = c.1 ∧ S.nodes = c.2.1
      ∧ tally = { c.2.2 with attempts := number } := by
  unfold verdict at h
  split_ifs at h with hg
  simp only [Option.some.injEq, Prod.mk.injEq] at h
  obtain ⟨rfl, rfl⟩ := h
  exact ⟨hg, rfl, rfl, rfl, rfl⟩

section Eval

variable {answer : (p : Probe) → Except Fault p.Answer}

/-- With fixed answers, an attempt finds its content, under the one generation there is. -/
theorem eval_attempt (number : UInt32) :
    (attempt number).eval answer = do
      let g ← answer .generation
      let c ← content.eval answer
      return some (⟨c.1, c.2.1, g⟩, { c.2.2 with attempts := number }) := by
  rw [attempt_eq]
  rcases hg : answer .generation with e | g
  · simp only [eval, hg]
    rfl
  · rcases hc : content.eval answer with e | c
    · simp only [eval, hg, eval_bind, hc]
      rfl
    · simp only [eval, hg, eval_bind, hc, verdict, Bind.bind, Except.bind, if_true]
      rfl

/-- With fixed answers, an attempt under another number finds the same snapshot. -/
theorem eval_attempt_number {n : UInt32} {S : Snapshot} {tally : Tally}
    (h : (attempt n).eval answer = .ok (some (S, tally))) (m : UInt32) :
    (attempt m).eval answer = .ok (some (S, { tally with attempts := m })) := by
  rw [eval_attempt] at h ⊢
  rcases hg : answer .generation with e | g <;> rw [hg] at h
  · cases h
  · rcases hc : content.eval answer with e | c <;> rw [hc] at h
    · cases h
    · cases h
      rfl

end Eval

section Run

variable {σ : Type} {M : Machine (StateM σ)} {b : Backoff} {s t : σ}

/-- A run of attempts is the run of the first one and, if it found nothing, of those after it. -/
theorem run_attempts_succ (k left : Nat) (s : σ) :
    (attempts b k (left + 1)).run M s =
      match (attempt (.ofNat k)).run M s with
      | (.ok (some r), t) => (.ok (some r), t)
      | (.ok none, t) =>
        if left = 0 then (.ok none, t)
        else (attempts b (k + 1) left).run M (M.wait (b.delay (.ofNat k)) t).2
      | (.error e, t) => (.error e, t) := by
  change (Survey.bind _ _).run M s = _
  rw [run_bind]
  rcases (attempt (.ofNat k)).run M s with ⟨_ | _ | r, t⟩
  · rfl
  · simp only
    split_ifs <;> rfl
  · rfl

theorem transcript_attempts_succ (k left : Nat) (s : σ) :
    (attempts b k (left + 1)).transcript M s = (attempt (.ofNat k)).transcript M s ++
      match (attempt (.ofNat k)).run M s with
      | (.ok none, t) =>
        if left = 0 then []
        else (attempts b (k + 1) left).transcript M (M.wait (b.delay (.ofNat k)) t).2
      | _ => [] := by
  change (Survey.bind _ _).transcript M s = _
  rw [transcript_bind]
  rcases (attempt (.ofNat k)).run M s with ⟨_ | _ | r, t⟩
  · rfl
  · simp only
    split_ifs <;> rfl
  · rfl

section First

variable {r : Except Fault (Option (Snapshot × Tally))} (h : (attempt 1).run M s = (r, t))
  (hr : r ≠ .ok none)

include h hr

/-- A first attempt that does not ask for another one ends the survey. -/
theorem run_settled : (settled b).run M s = (r, t) := by
  obtain ⟨left, hleft⟩ := b.exists_attempts
  have hfirst : (attempt (.ofNat 1)).run M s = (r, t) := h
  rw [settled, hleft, run_attempts_succ, hfirst]
  rcases r with f | _ | r
  · rfl
  · exact absurd rfl hr
  · rfl

theorem transcript_settled : (settled b).transcript M s = (attempt 1).transcript M s := by
  obtain ⟨left, hleft⟩ := b.exists_attempts
  have hfirst : (attempt (.ofNat 1)).run M s = (r, t) := h
  rw [settled, hleft, transcript_attempts_succ, hfirst]
  rcases r with f | _ | r
  · exact List.append_nil _
  · exact absurd rfl hr
  · exact List.append_nil _

end First

/-- Attempt `n`, begun in state `u`, is the last one of the survey and finds `r`. -/
structure Accepted (M : Machine (StateM σ)) (b : Backoff) (s : σ) (n : UInt32) (u : σ)
    (r : Snapshot × Tally) (t : σ) : Prop where
  run_eq : (attempt n).run M u = (.ok (some r), t)
  transcript_eq : ∃ before,
    (settled b).transcript M s = before ++ (attempt n).transcript M u

/-- A run of attempts that finds something ends with the attempt that found it. -/
theorem exists_last_attempt {r : Snapshot × Tally} :
    ∀ (left k : Nat) (s : σ), (attempts b k left).run M s = (.ok (some r), t) →
      ∃ j u before, j < left ∧ (attempt (.ofNat (k + j))).run M u = (.ok (some r), t)
        ∧ (attempts b k left).transcript M s
          = before ++ (attempt (.ofNat (k + j))).transcript M u
  | 0, k, s, h => by cases h
  | left + 1, k, s, h => by
    rw [run_attempts_succ] at h
    rw [transcript_attempts_succ]
    rcases ha : (attempt (.ofNat k)).run M s with ⟨_ | _ | r', t'⟩ <;> rw [ha] at h
    · cases h
    · simp only at h ⊢
      split_ifs at h ⊢
      · cases h
      · obtain ⟨j, u, before, hj, hr, ht⟩ := exists_last_attempt left (k + 1) _ h
        rw [show k + 1 + j = k + (j + 1) by omega] at hr ht
        refine ⟨j + 1, u, (attempt (.ofNat k)).transcript M s ++ before, by omega, hr, ?_⟩
        rw [ht, List.append_assoc]
    · simp only at h
      exact ⟨0, s, [], by omega, by rw [← h]; exact ha, by simp⟩

theorem exists_accepted {r : Snapshot × Tally} (h : (settled b).run M s = (.ok (some r), t)) :
    ∃ n u, Accepted M b s n u r t := by
  obtain ⟨j, u, before, -, hr, ht⟩ := exists_last_attempt _ _ _ h
  exact ⟨.ofNat (1 + j), u, hr, before, ht⟩

/-- An attempt that is answered to its end begins and ends by reading the generation, and its
verdict is by these two readings. -/
theorem transcript_of_attempt_ok {n : UInt32} {v : Option (Snapshot × Tally)}
    (h : (attempt n).run M s = (.ok v, t)) : ∃ first last u middle c, v = verdict n first last c
      ∧ (attempt n).transcript M s
        = (⟨.generation, .ok first⟩, u) :: middle ++ [(⟨.generation, .ok last⟩, t)] := by
  rw [attempt_eq] at h ⊢
  rcases hg : M.answer .generation s with ⟨e | first, u⟩
  · rw [run_ask_error hg] at h
    cases h
  rw [run_ask_ok hg] at h
  rw [transcript_ask_ok hg]
  rcases hc : content.run M u with ⟨e | c, w⟩
  · rw [run_bind_error hc] at h
    cases h
  rw [run_bind_ok hc] at h
  rw [transcript_bind_ok hc]
  rcases hl : M.answer .generation w with ⟨e | last, x⟩
  · rw [run_ask_error hl] at h
    cases h
  rw [run_ask_ok hl] at h
  rw [transcript_ask_ok hl]
  obtain ⟨hv, rfl⟩ := Prod.mk.inj h
  exact ⟨first, last, u, content.transcript M u, c, (Except.ok.inj hv).symm, rfl⟩

/-- An attempt that finds a snapshot begins and ends by reading its generation. -/
theorem transcript_of_accepted {n : UInt32} {S : Snapshot} {tally : Tally}
    (h : (attempt n).run M s = (.ok (some (S, tally)), t)) :
    ∃ u middle, (attempt n).transcript M s
      = (⟨.generation, .ok S.generation⟩, u) :: middle
        ++ [(⟨.generation, .ok S.generation⟩, t)] := by
  obtain ⟨first, last, u, middle, c, hv, htranscript⟩ := transcript_of_attempt_ok h
  obtain ⟨rfl, rfl, -⟩ := verdict_eq_some hv.symm
  exact ⟨u, middle, htranscript⟩

end Run

end Survey

namespace Publisher

variable {σ : Type} {M : Machine (StateM σ)}

theorem take_run (p : Publisher) (s : σ) :
    p.take M s
      = (p.settle ((Survey.settled p.backoff).run M s).1,
        ((Survey.settled p.backoff).run M s).2) := rfl

theorem take_ok {p p' : Publisher} {s t : σ} (h : p.take M s = ((.ok (), p'), t)) :
    ∃ S tally, (Survey.settled p.backoff).run M s = (.ok (some (S, tally)), t)
      ∧ p' = p.publish S tally := by
  rw [take_run] at h
  obtain ⟨hsettle, ht⟩ := Prod.mk.inj h
  rcases hrun : (Survey.settled p.backoff).run M s with ⟨_ | _ | ⟨S, tally⟩, t'⟩ <;>
    rw [hrun] at hsettle ht
  · cases hsettle
  · cases hsettle
  · obtain ⟨-, rfl⟩ := Prod.mk.inj hsettle
    obtain rfl : t' = t := ht
    exact ⟨S, tally, rfl, rfl⟩

end Publisher

end ComputeTopology
