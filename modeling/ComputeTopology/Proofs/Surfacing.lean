import ComputeTopology.Proofs.Bounded
import ComputeTopology.Proofs.History

/-!
# Faults come through as they are

A machine can be watched: beside its own state it then keeps all that it was asked and answered
(`Machine.watched`), and nothing else about a run changes (`Survey.run_watched`). So it can be
said of an operation, and not of a survey alone, what it asked. An operation that fails was either
answered with its fault by the last probe and with no fault before, or has seen every attempt that
the backoff allows torn (`Survey.FailsWith`); and one attempt whose readings of the generation
agree makes it succeed (`Publisher.fault_surfaces`).
-/

namespace ComputeTopology

variable {σ α : Type}

/-- The machine, with all that it was asked and answered written down beside its state. -/
def Machine.watched (M : Machine (StateM σ)) : Machine (StateM (σ × List Exchange)) where
  answer p := fun s => ((M.answer p s.1).1, (M.answer p s.1).2, s.2 ++ [⟨p, (M.answer p s.1).1⟩])
  wait ms := fun s => ((), (M.wait ms s.1).2, s.2)

namespace Survey

variable {M : Machine (StateM σ)} {b : Backoff} {s u t : σ} {k : Nat}
  {before : List (Exchange × σ)}

/-- What is written down of a run is its transcript. -/
theorem run_watched (M : Machine (StateM σ)) :
    ∀ (x : Survey α) (s : σ) (es : List Exchange), x.run M.watched (s, es)
      = ((x.run M s).1, (x.run M s).2, es ++ (x.transcript M s).map (·.1))
  | done a, s, es => by simp
  | ask p next, s, es => by
    rcases h : M.answer p s with ⟨f | a, t⟩
    · have hwatched : M.watched.answer p (s, es) = (.error f, t, es ++ [⟨p, .error f⟩]) := by
        simp only [Machine.watched, h]
      rw [run_ask_error hwatched, run_ask_error h, transcript_ask_error h]
      rfl
    · have hwatched : M.watched.answer p (s, es) = (.ok a, t, es ++ [⟨p, .ok a⟩]) := by
        simp only [Machine.watched, h]
      rw [run_ask_ok hwatched, run_ask_ok h, transcript_ask_ok h, run_watched M (next a)]
      simp
  | pause ms next, s, es => run_watched M next _ es

/-- Attempt number `k`, begun in state `u`, is answered to its end, in state `t`, and reads the
generation last as it did first. -/
def Agreed (M : Machine (StateM σ)) (k : Nat) (u t : σ) : Prop :=
  ∃ g v middle, (attempt (.ofNat k)).transcript M u
    = (⟨.generation, .ok g⟩, v) :: middle ++ [(⟨.generation, .ok g⟩, t)]

/-- An attempt whose readings agree finds a snapshot. -/
theorem Agreed.exists_found (h : Agreed M k u t) :
    ∃ S tally, (attempt (.ofNat k)).run M u = (.ok (some (S, tally)), t) := by
  obtain ⟨g, v, middle, htranscript⟩ := h
  rcases hrun : (attempt (.ofNat k)).run M u with ⟨f | r, t'⟩
  · -- a run that fails is answered with a fault last, and not with a generation
    obtain ⟨es, p, hes, -⟩ := transcript_of_run_error _ hrun
    rw [htranscript] at hes
    cases (List.append_inj' hes rfl).2
  · obtain ⟨first, last, v', middle', c, rfl, htranscript'⟩ := transcript_of_attempt_ok hrun
    rw [htranscript, List.cons_append, List.cons_append] at htranscript'
    obtain ⟨hhead, htail⟩ := List.cons.inj htranscript'
    have hlast := (List.append_inj' htail rfl).2
    cases hhead
    cases hlast
    exact ⟨_, _, by rw [verdict, if_pos rfl]⟩

/-- How a survey from state `s` that was asked and answered `es` comes to end with a fault. -/
inductive FailsWith (M : Machine (StateM σ)) (b : Backoff) (s : σ) :
    List Exchange → Fault → Prop
  /-- Every attempt that the backoff allows was answered to its end and is torn. -/
  | exhausted {u t : σ} {before : List (Exchange × σ)} {es : List Exchange}
    (begins : Begins M b s b.attempts.toNat u before) (torn : Torn M b.attempts.toNat u t)
    (exchanges : es
      = (before ++ (attempt (.ofNat b.attempts.toNat)).transcript M u).map (·.1))
    (silent : ∀ e ∈ es, e.fault? = none) : FailsWith M b s es (.inconsistent b.attempts)
  /-- The last probe was answered with this fault and no other one with any. -/
  | answered {before : List Exchange} {probe : Probe} {f : Fault}
    (silent : ∀ e ∈ before, e.fault? = none) : FailsWith M b s (before ++ [⟨probe, .error f⟩]) f

/-- A run that ends with a result was answered with no fault. -/
theorem silent_of_run_ok (x : Survey α) {a : α} (h : x.run M s = (.ok a, t)) :
    ∀ e ∈ (x.transcript M s).map (·.1), e.fault? = none := fun e he => by
  obtain ⟨y, hy, rfl⟩ := List.mem_map.1 he
  exact answer_of_run_ok x h y hy

/-- A survey that is answered with no fault and finds nothing is torn in every attempt. -/
theorem failsWith_of_run_none (h : (settled b).run M s = (.ok none, t)) :
    FailsWith M b s (((settled b).transcript M s).map (·.1)) (.inconsistent b.attempts) := by
  obtain ⟨k, u, before, hends⟩ := exists_ends M b s
  have htorn := run_eq_none_iff_torn.1 (hends.run_eq.symm.trans h)
  obtain rfl := hends.allowed htorn
  exact .exhausted hends.begins htorn (by rw [hends.transcript_eq]) (silent_of_run_ok _ h)

theorem failsWith_of_run_error {f : Fault} (h : (settled b).run M s = (.error f, t)) :
    FailsWith M b s (((settled b).transcript M s).map (·.1)) f := by
  obtain ⟨before, p, hbefore, hsilent⟩ := transcript_of_run_error _ h
  rw [hbefore, List.map_append]
  refine .answered fun e he => ?_
  obtain ⟨x, hx, rfl⟩ := List.mem_map.1 he
  exact hsilent x hx

end Survey

namespace Publisher

open Survey

variable {M : Machine (StateM σ)} {p p' : Publisher} {s t u : σ} {es : List Exchange} {f : Fault}

theorem take_watched (M : Machine (StateM σ)) (p : Publisher) (s : σ) :
    p.take M.watched (s, []) = ((p.take M s).1, (p.take M s).2,
      ((settled p.backoff).transcript M s).map (·.1)) := by
  rw [take_run, take_run, run_watched]
  rfl

theorem failsWith_of_take (h : p.take M.watched (s, []) = ((.error f, p'), t, es)) :
    FailsWith M p.backoff s es f := by
  rw [take_watched, take_run] at h
  rcases hrun : (settled p.backoff).run M s with ⟨g | _ | r, t'⟩ <;> rw [hrun] at h <;> cases h
  · exact failsWith_of_run_error hrun
  · exact failsWith_of_run_none hrun

/-- Acquiring the platform fails only as the survey that it makes does. -/
theorem take_of_acquire (h : p.acquire M.watched (s, []) = ((.error f, p'), t, es)) :
    p.take M.watched (s, []) = ((.error f, p'), t, es) := by
  rcases hcurrent : p.current with _ | q
  · rw [acquire_none hcurrent] at h
    rcases htake : p.take M.watched (s, []) with ⟨⟨g | _, p₁⟩, t₁⟩ <;> rw [htake] at h
    · cases h
      rfl
    · -- a survey that succeeds has published what is then asked for
      obtain ⟨S, tally, -, rfl⟩ := take_ok htake
      cases h
  · rw [acquire_held hcurrent] at h
    cases h

/-- An operation that takes a snapshot fails with the fault of its last probe, the only one that
was answered with a fault, or because every attempt that the backoff allows is torn. It succeeds
as soon as the readings of one attempt agree. -/
theorem fault_surfaces (M : Machine (StateM σ)) (p : Publisher) (s : σ) :
    p.backoff.attempts.toNat = max p.backoff.maxAttempts.toNat 1
      ∧ (∀ {f p' t es}, p.take M.watched (s, []) = ((.error f, p'), t, es) →
        FailsWith M p.backoff s es f)
      ∧ (∀ {f p' t es}, p.acquire M.watched (s, []) = ((.error f, p'), t, es) →
        FailsWith M p.backoff s es f)
      ∧ ∀ {k u before t}, Begins M p.backoff s k u before → k ≤ p.backoff.attempts.toNat →
        Agreed M k u t → ∃ S tally es, (∀ e ∈ es, e.fault? = none)
          ∧ p.take M.watched (s, []) = ((.ok (), p.publish S tally), t, es)
          ∧ ∃ platform, (p.acquire M.watched (s, [])).1.1 = .ok platform := by
  refine ⟨p.backoff.attempts_toNat, failsWith_of_take,
    fun h => failsWith_of_take (take_of_acquire h), fun {k u before t} hbegins hle hagreed => ?_⟩
  obtain ⟨S, tally, hrun⟩ := hagreed.exists_found
  have hends := hbegins.ends hle fun htorn => by
    rw [run_eq_none_iff_torn.2 htorn] at hrun
    cases hrun
  have htake : p.take M.watched (s, []) = ((.ok (), p.publish S tally), t,
      ((settled p.backoff).transcript M s).map (·.1)) := by
    rw [take_watched, take_of_ends hends, hrun]
    rfl
  refine ⟨S, tally, _, silent_of_run_ok _ (hends.run_eq.trans hrun), htake, ?_⟩
  rcases hacquire : p.acquire M.watched (s, []) with ⟨⟨f | platform, p'⟩, t', es⟩
  · cases htake.symm.trans (take_of_acquire hacquire)
  · exact ⟨platform, rfl⟩

/-- A machine that answers nothing is asked once, though sixteen attempts are allowed. -/
example :
    let mute : Machine (StateM Unit) :=
      ⟨fun _ => return .error (.notSupported "all"), fun _ => return ()⟩
    let out := ({} : Publisher).take mute.watched ((), [])
    out.1.1 = .error (.notSupported "all") ∧ out.2.2.map (·.probe) = [.generation] := by
  decide +kernel

end Publisher

end ComputeTopology
