import ComputeTopology.Proofs.Retry

/-!
# How a survey goes through its attempts

An attempt is torn if it is answered to its end and its two readings of the generation differ. Only
a torn attempt is followed by another one (`Survey.Begins`), and the survey ends with the first that
is not torn, or with the last one that the backoff allows (`Survey.exists_ends`). What it then
publishes is what a survey finds that begins where this last attempt began; of the attempts before,
nothing is left but their number (`Publisher.take_bounded`).
-/

namespace ComputeTopology

namespace Survey

variable {σ : Type}

/-- Attempt number `k`, begun in state `u`, is answered to its end, in state `t`, and the last
reading of the generation is not the first one. -/
def Torn (M : Machine (StateM σ)) (k : Nat) (u t : σ) : Prop :=
  ∃ first last v middle, first ≠ last ∧ (attempt (.ofNat k)).transcript M u
    = (⟨.generation, .ok first⟩, v) :: middle ++ [(⟨.generation, .ok last⟩, t)]

/-- A survey that begins in state `s` would begin its attempt number `k` in state `u`, after the
exchanges `before`: it goes on as long as its attempts are torn, and waits in between. -/
inductive Begins (M : Machine (StateM σ)) (b : Backoff) (s : σ) :
    Nat → σ → List (Exchange × σ) → Prop
  | first : Begins M b s 1 s []
  | next {k : Nat} {u t : σ} {before : List (Exchange × σ)} (begins : Begins M b s k u before)
    (torn : Torn M k u t) : Begins M b s (k + 1) (M.wait (b.delay (.ofNat k)) t).2
      (before ++ (attempt (.ofNat k)).transcript M u)

variable {M : Machine (StateM σ)} {b : Backoff} {s u t : σ} {k : Nat}
  {before : List (Exchange × σ)}

theorem verdict_eq_none_iff {number first last : UInt32} {c : Platform × List Node × Tally} :
    verdict number first last c = none ↔ first ≠ last := by
  unfold verdict
  split_ifs with h <;> simp [h]

/-- The attempt that asks for another one is the torn one. -/
theorem run_eq_none_iff_torn :
    (attempt (.ofNat k)).run M u = (.ok none, t) ↔ Torn M k u t := by
  constructor
  · intro h
    obtain ⟨first, last, v, middle, c, hv, htranscript⟩ := transcript_of_attempt_ok h
    exact ⟨first, last, v, middle, verdict_eq_none_iff.1 hv.symm, htranscript⟩
  · rintro ⟨first, last, v, middle, hne, htranscript⟩
    rcases hrun : (attempt (.ofNat k)).run M u with ⟨f | r, t'⟩
    · -- a run that fails is answered with a fault last, and not with a generation
      obtain ⟨es, p, hes, -⟩ := transcript_of_run_error _ hrun
      rw [htranscript] at hes
      have hlast := (List.append_inj' hes rfl).2
      cases hlast
    · obtain ⟨first', last', v', middle', c, rfl, htranscript'⟩ := transcript_of_attempt_ok hrun
      rw [htranscript, List.cons_append, List.cons_append] at htranscript'
      obtain ⟨hhead, htail⟩ := List.cons.inj htranscript'
      have hlast := (List.append_inj' htail rfl).2
      cases hhead
      cases hlast
      rw [verdict_eq_none_iff.2 hne]

/-- The survey does come to the attempts that the backoff allows. -/
theorem Begins.settled_eq (h : Begins M b s k u before) :
    ∀ left, k + left = b.attempts.toNat →
      (settled b).run M s = (attempts b k (left + 1)).run M u
        ∧ (settled b).transcript M s = before ++ (attempts b k (left + 1)).transcript M u := by
  induction h with
  | first =>
    intro left hleft
    rw [settled, ← hleft, Nat.add_comm]
    exact ⟨rfl, rfl⟩
  | @next k u t before _ torn ih =>
    intro left hleft
    have hrun := run_eq_none_iff_torn.2 torn
    obtain ⟨hsettled, htranscript⟩ := ih (left + 1) (by omega)
    rw [hsettled, htranscript, run_attempts_succ, transcript_attempts_succ, hrun]
    simp only [Nat.succ_ne_zero, if_false, List.append_assoc, and_self]

/-- Attempt `k` is the last one of the survey, and its result is that of the survey. -/
structure Ends (M : Machine (StateM σ)) (b : Backoff) (s : σ) (k : Nat) (u : σ)
    (before : List (Exchange × σ)) : Prop where
  begins : Begins M b s k u before
  le : k ≤ b.attempts.toNat
  run_eq : (settled b).run M s = (attempt (.ofNat k)).run M u
  transcript_eq :
    (settled b).transcript M s = before ++ (attempt (.ofNat k)).transcript M u
  allowed : ∀ {t}, Torn M k u t → k = b.attempts.toNat

/-- An attempt is the last one if it is not torn or if the backoff allows no other. -/
theorem Begins.ends (h : Begins M b s k u before) (hle : k ≤ b.attempts.toNat)
    (hlast : ∀ {t}, Torn M k u t → k = b.attempts.toNat) : Ends M b s k u before := by
  obtain ⟨left, hleft⟩ : ∃ left, k + left = b.attempts.toNat := ⟨b.attempts.toNat - k, by omega⟩
  obtain ⟨hrun, htranscript⟩ := h.settled_eq left hleft
  rw [run_attempts_succ] at hrun
  rw [transcript_attempts_succ] at htranscript
  refine ⟨h, hle, ?_, ?_, hlast⟩
  · rw [hrun]
    rcases hattempt : (attempt (.ofNat k)).run M u with ⟨f | _ | r, t⟩
    · rfl
    · have hk := hlast (run_eq_none_iff_torn.1 hattempt)
      simp only
      rw [if_pos (by omega)]
    · rfl
  · rw [htranscript]
    rcases hattempt : (attempt (.ofNat k)).run M u with ⟨f | _ | r, t⟩
    · simp only [List.append_nil]
    · have hk := hlast (run_eq_none_iff_torn.1 hattempt)
      simp only
      rw [if_pos (by omega), List.append_nil]
    · simp only [List.append_nil]

/-- Every survey has a last attempt, within the bound. -/
theorem exists_ends (M : Machine (StateM σ)) (b : Backoff) (s : σ) :
    ∃ k u before, Ends M b s k u before := by
  -- either the survey ends with one of its first `n` attempts, or it comes to the next one
  have key : ∀ n < b.attempts.toNat,
      (∃ k u before, Ends M b s k u before) ∨ ∃ u before, Begins M b s (n + 1) u before := by
    intro n
    induction n with
    | zero => exact fun _ => .inr ⟨s, [], .first⟩
    | succ n ih =>
      intro hlt
      rcases ih (by omega) with hends | ⟨u, before, h⟩
      · exact .inl hends
      · by_cases htorn : ∃ t, Torn M (n + 1) u t
        · obtain ⟨t, htorn⟩ := htorn
          exact .inr ⟨_, _, h.next htorn⟩
        · exact .inl ⟨n + 1, u, before, h.ends (by omega) fun h => absurd ⟨_, h⟩ htorn⟩
  have hpos : 1 ≤ b.attempts.toNat := by
    rw [b.attempts_toNat]
    exact Nat.le_max_right _ _
  rcases key (b.attempts.toNat - 1) (by omega) with hends | ⟨u, before, h⟩
  · exact hends
  · exact ⟨_, u, before, h.ends (by omega) fun _ => by omega⟩

/-- The number of an attempt shows in the tally only. -/
theorem attempt_number (n m : UInt32) : attempt m = (attempt n).bind fun found =>
    done (found.map fun r => (r.1, { r.2 with attempts := m })) := by
  have hverdict : ∀ first last c, verdict m first last c
      = (verdict n first last c).map fun r => (r.1, { r.2 with attempts := m }) := by
    intro first last c
    unfold verdict
    split_ifs <;> rfl
  rw [attempt_eq, attempt_eq]
  simp only [bind, bind_assoc, hverdict]

theorem run_attempt_number {n : UInt32} {S : Snapshot} {tally : Tally}
    (h : (attempt n).run M u = (.ok (some (S, tally)), t)) (m : UInt32) :
    (attempt m).run M u = (.ok (some (S, { tally with attempts := m })), t) := by
  rw [attempt_number n m, run_bind_ok h]
  rfl

end Survey

namespace Publisher

variable {σ : Type} {M : Machine (StateM σ)}

/-- Attempt `k`, begun in state `u`, found the snapshot `S`. -/
structure Found (M : Machine (StateM σ)) (k : Nat) (u : σ) (S : Snapshot) (tally : Tally) (t : σ) :
    Prop where
  number : tally.attempts.toNat = k
  readings : ∃ v middle, (Survey.attempt (.ofNat k)).transcript M u
    = (⟨.generation, .ok S.generation⟩, v) :: middle ++ [(⟨.generation, .ok S.generation⟩, t)]
  /-- A survey that begins there finds the same at once. -/
  alone : ∀ q : Publisher,
    q.take M u = ((.ok (), q.publish S { tally with attempts := 1 }), t)
  /-- Wherever attempt `k` is answered alike, it finds the same, whatever was read before. -/
  alike : ∀ {τ : Type} {N : Machine (StateM τ)} {q : Publisher} {s v : τ}
    {before : List (Exchange × τ)}, Survey.Begins N q.backoff s k v before →
      k ≤ q.backoff.attempts.toNat →
      ((Survey.attempt (.ofNat k)).transcript N v).map (·.1)
        = ((Survey.attempt (.ofNat k)).transcript M u).map (·.1) →
      ∃ w, q.take N s = ((.ok (), q.publish S tally), w)

/-- How a survey ends with its attempt `k`, begun in state `u`: with what the attempt found, because
the backoff allows no other one, or with the fault that a probe was answered with. -/
inductive Ending (M : Machine (StateM σ)) (p : Publisher) (k : Nat) (u : σ) :
    (Except Fault Unit × Publisher) × σ → Prop
  | found {S : Snapshot} {tally : Tally} {t : σ} (found : Found M k u S tally t) :
    Ending M p k u ((.ok (), p.publish S tally), t)
  | exhausted {t : σ} (torn : Survey.Torn M k u t) (last : k = p.backoff.attempts.toNat) :
    Ending M p k u ((.error (.inconsistent p.backoff.attempts), p), t)
  | failed {probe : Probe} {f : Fault} {t : σ} {before : List (Exchange × σ)}
    (answered : (Survey.attempt (.ofNat k)).transcript M u = before ++ [(⟨probe, .error f⟩, t)])
    (silent : ∀ e ∈ before, e.1.fault? = none) : Ending M p k u ((.error f, p), t)

theorem take_of_ends {p : Publisher} {s u : σ} {k : Nat} {before : List (Exchange × σ)}
    (h : Survey.Ends M p.backoff s k u before) :
    p.take M s = (p.settle ((Survey.attempt (.ofNat k)).run M u).1,
      ((Survey.attempt (.ofNat k)).run M u).2) := by
  rw [take_run, h.run_eq]

theorem found_of_run {k : Nat} {u t : σ} {S : Snapshot} {tally : Tally} (hk : k < UInt32.size)
    (hrun : (Survey.attempt (.ofNat k)).run M u = (.ok (some (S, tally)), t)) :
    Found M k u S tally t where
  number := by
    obtain ⟨_, _, _, _, _, hv, -⟩ := Survey.transcript_of_attempt_ok hrun
    obtain ⟨-, -, -, -, rfl⟩ := Survey.verdict_eq_some hv.symm
    exact UInt32.toNat_ofNat_of_lt' hk
  readings := Survey.transcript_of_accepted hrun
  alone q := by
    rw [take_run, Survey.run_settled (Survey.run_attempt_number hrun 1) (by rintro ⟨⟩)]
    rfl
  alike := by
    intro τ N q s v before hbegins hle halike
    have hresult := Survey.run_fst_of_exchanges_eq _ halike
    rw [hrun] at hresult
    have hends := hbegins.ends hle fun {t} htorn => by
      rw [Survey.run_eq_none_iff_torn.2 htorn] at hresult
      cases hresult
    rw [take_of_ends hends, hresult]
    exact ⟨_, rfl⟩

theorem ending_of_ends {p : Publisher} {s u : σ} {k : Nat} {before : List (Exchange × σ)}
    (h : Survey.Ends M p.backoff s k u before) : Ending M p k u (p.take M s) := by
  rw [take_of_ends h]
  rcases hrun : (Survey.attempt (.ofNat k)).run M u with ⟨f | _ | ⟨S, tally⟩, t⟩
  · obtain ⟨es, probe, hes, hsilent⟩ := Survey.transcript_of_run_error _ hrun
    exact .failed hes hsilent
  · have htorn := Survey.run_eq_none_iff_torn.1 hrun
    exact .exhausted htorn (h.allowed htorn)
  · exact .found (found_of_run (Nat.lt_of_le_of_lt h.le (UInt32.toNat_lt_size _)) hrun)

/-- The survey itself finds the machine inconsistent if and only if every attempt that the backoff
allows is torn. -/
theorem take_inconsistent_iff (M : Machine (StateM σ)) (p : Publisher) (s : σ) :
    ((∃ t, p.take M s = ((.error (.inconsistent p.backoff.attempts), p), t))
        ∧ ∀ e ∈ (Survey.settled p.backoff).transcript M s, e.1.fault? = none)
      ↔ ∃ u before t, Survey.Begins M p.backoff s p.backoff.attempts.toNat u before
        ∧ Survey.Torn M p.backoff.attempts.toNat u t := by
  constructor
  · rintro ⟨⟨t, htake⟩, hsilent⟩
    obtain ⟨k, u, before, hends⟩ := Survey.exists_ends M p.backoff s
    have hending := ending_of_ends hends
    rw [htake] at hending
    rcases hending with _ | ⟨htorn, rfl⟩ | ⟨hanswered, -⟩
    · exact ⟨u, before, t, hends.begins, htorn⟩
    · have hfault := hsilent _ (by
        rw [hends.transcript_eq, hanswered]
        exact List.mem_append_right _ (List.mem_append_right _ (List.mem_singleton_self _)))
      cases hfault
  · rintro ⟨u, before, t, hbegins, htorn⟩
    have hends := hbegins.ends (Nat.le_refl _) fun _ => rfl
    have hrun := Survey.run_eq_none_iff_torn.2 htorn
    refine ⟨⟨t, ?_⟩, Survey.answer_of_run_ok _ (hends.run_eq.trans hrun)⟩
    rw [take_of_ends hends, hrun]
    rfl

/-- A survey goes from attempt to attempt while they are torn, never beyond the bound, and ends as
its last attempt does. It finds the machine inconsistent exactly if all attempts are torn. -/
theorem take_bounded (M : Machine (StateM σ)) (p : Publisher) (s : σ) :
    p.backoff.attempts.toNat = max p.backoff.maxAttempts.toNat 1
      ∧ (∃ k u before, Survey.Begins M p.backoff s k u before ∧ k ≤ p.backoff.attempts.toNat
        ∧ (Survey.settled p.backoff).transcript M s
          = before ++ (Survey.attempt (.ofNat k)).transcript M u
        ∧ Ending M p k u (p.take M s))
      ∧ (((∃ t, p.take M s = ((.error (.inconsistent p.backoff.attempts), p), t))
          ∧ ∀ e ∈ (Survey.settled p.backoff).transcript M s, e.1.fault? = none)
        ↔ ∃ u before t, Survey.Begins M p.backoff s p.backoff.attempts.toNat u before
          ∧ Survey.Torn M p.backoff.attempts.toNat u t) := by
  obtain ⟨k, u, before, hends⟩ := Survey.exists_ends M p.backoff s
  exact ⟨p.backoff.attempts_toNat,
    ⟨k, u, before, hends.begins, hends.le, hends.transcript_eq, ending_of_ends hends⟩,
    take_inconsistent_iff M p s⟩

end Publisher

end ComputeTopology
