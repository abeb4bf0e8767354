import ComputeTopology.Proofs.Exposed
import ComputeTopology.Proofs.Retry
import ComputeTopology.Proofs.Told

/-!
# Surveys of files that do not change

In files that do not change, every attempt builds the same exposure, and from then on the machine
only reads off answers that depend on nothing else (`Sysfs.shown`). So a survey that succeeds does so
in its first attempt, and what it publishes is told by these answers (`Sysfs.exists_shown`); and
where they lead to a snapshot, a survey publishes it from any state (`Sysfs.take_of_eval`).
-/

namespace ComputeTopology.Sysfs

variable {α : Type} {fs : Files Id} {layout : Layout} {wait : UInt64 → Id Unit}
  {e e' X : Exposure}

/-- What the files answer under an exposure. -/
def shown (fs : Files Id) (layout : Layout) (e : Exposure) (p : Probe) : Except Fault p.Answer :=
  (answer fs layout e p).run.1

/-- The platform's sheet and the exposure, as they are read for a probe for the platform. -/
def platformParts (fs : Files Id) (layout : Layout) : Except FileFault (PropertySheet × Exposure) := do
  let sheet ← result (PropertySheet.read fs (joinPath layout.topology "system_properties"))
  return (sheet, ← result (readExposure fs layout))

theorem answer_platform :
    (machine fs layout wait).answer .platform e =
      match platformParts fs layout with
      | .error fault => (.error fault.toFault, e)
      | .ok (sheet, e) => ((sheet.platform (.ofNat e.length)).mapError FileFault.toFault, e) := by
  have hparts : platformParts fs layout = result (do
      let sheet ← PropertySheet.read fs (joinPath layout.topology "system_properties")
      return (sheet, ← readExposure fs layout)) := by
    simp only [result_bind, result_pure]
    rfl
  rw [hparts]
  change (answer fs layout e .platform).run = _
  rw [answer, readPlatform, result]
  generalize (PropertySheet.read fs (joinPath layout.topology "system_properties") >>= _) = built
  simp only [Id.run_bind]
  rcases built.run.run with f | ⟨sheet, e⟩ <;> rfl

theorem answer_platform_eq (hX : result (readExposure fs layout) = .ok X) :
    ((machine fs layout wait).answer .platform X).2 = X := by
  rw [answer_platform, platformParts, hX]
  rcases result (PropertySheet.read fs (joinPath layout.topology "system_properties")) with f | sheet
    <;> rfl

theorem shown_platform (hX : result (readExposure fs layout) = .ok X) :
    shown fs layout X .platform = (do
      let sheet ← result (PropertySheet.read fs (joinPath layout.topology "system_properties"))
      sheet.platform (.ofNat X.length)).mapError FileFault.toFault := by
  have hanswer : (machine fs layout fun _ => ()).answer .platform X = _ := answer_platform
  rw [platformParts, hX] at hanswer
  refine (congrArg Prod.fst hanswer).trans ?_
  rcases result (PropertySheet.read fs (joinPath layout.topology "system_properties")) with f | sheet
    <;> rfl

theorem answer_platform_ok {platform : Platform}
    (h : (machine fs layout wait).answer .platform e = (.ok platform, X)) :
    result (readExposure fs layout) = .ok X
      ∧ ∀ e', (machine fs layout wait).answer .platform e' = (.ok platform, X) := by
  simp only [answer_platform] at h ⊢
  rcases hparts : platformParts fs layout with f | ⟨sheet, e₁⟩ <;> rw [hparts] at h
  · cases h
  · obtain ⟨hplatform, rfl⟩ := Prod.mk.inj h
    obtain ⟨_, -, hrest⟩ := bind_eq_ok.1 hparts
    obtain ⟨_, he₁, hrest⟩ := bind_eq_ok.1 hrest
    cases hrest
    exact ⟨he₁, fun _ => Prod.ext hplatform rfl⟩

theorem answer_snd {p : Probe} (hp : p ≠ .platform) :
    ((machine fs layout wait).answer p e).2 = e := by
  cases p with
  | platform => exact absurd rfl hp
  | link i index peer =>
    change (answer fs layout e (.link i index peer)).2 = e
    rcases h : e.number i with f | id <;> simp only [answer, h] <;> rfl
  | _ => rfl

theorem answer_generation :
    (machine fs layout wait).answer .generation e = (shown fs layout X .generation, e) := rfl

theorem machine_keeps (hX : result (readExposure fs layout) = .ok X) :
    (machine fs layout wait).Keeps (· = X) where
  answer p s hs := by
    subst hs
    by_cases hp : p = .platform
    · subst hp
      exact answer_platform_eq hX
    · exact answer_snd hp
  wait _ _ h := h

/-- Once the exposure is built, a run is reading off the answers. -/
theorem run_machine (hX : result (readExposure fs layout) = .ok X) (x : Survey α) :
    x.run (machine fs layout wait) X = (x.eval (shown fs layout X), X) :=
  Survey.run_of_keeps (machine_keeps hX) x

/-- An attempt forgets the exposure that there was before it. -/
theorem run_attempt_eq {n generation : UInt32} {platform : Platform}
    (hg : shown fs layout X .generation = .ok generation)
    (hp : ∀ e, (machine fs layout wait).answer .platform e = (.ok platform, X)) (e : Exposure) :
    (Survey.attempt n).run (machine fs layout wait) e
      = (Survey.attempt n).run (machine fs layout wait) X := by
  have hg' : ∀ e, (machine fs layout wait).answer .generation e = (.ok generation, e) :=
    fun e => hg ▸ answer_generation
  -- the generation is asked for under the old exposure; then the platform brings the new one
  rw [Survey.attempt_eq, Survey.run_ask_ok (hg' e), Survey.run_ask_ok (hg' X)]
  change (Survey.ask .platform _).run (machine fs layout wait) e
    = (Survey.ask .platform _).run (machine fs layout wait) X
  rw [Survey.run_ask_ok (hp e), Survey.run_ask_ok (hp X)]

theorem run_attempt_ok {n : UInt32} {v : Option (Snapshot × Tally)}
    (h : (Survey.attempt n).run (machine fs layout wait) e = (.ok v, X)) :
    result (readExposure fs layout) = .ok X
      ∧ (Survey.attempt n).eval (shown fs layout X) = .ok v := by
  have hrun := h
  rw [Survey.attempt_eq] at h
  have hg' : (machine fs layout wait).answer .generation e = (shown fs layout X .generation, e) :=
    answer_generation
  rcases hg : shown fs layout X .generation with f | generation <;> rw [hg] at hg'
  · rw [Survey.run_ask_error hg'] at h
    cases h
  · rw [Survey.run_ask_ok hg'] at h
    change (Survey.ask .platform _).run (machine fs layout wait) e = _ at h
    rcases hp : (machine fs layout wait).answer .platform e with ⟨f | platform, Y⟩
    · rw [Survey.run_ask_error hp] at h
      cases h
    · obtain ⟨hY, hall⟩ := answer_platform_ok hp
      rw [run_attempt_eq (X := Y) hg hall, run_machine hY] at hrun
      obtain ⟨heval, rfl⟩ := Prod.mk.inj hrun
      exact ⟨hY, heval⟩

theorem run_attempt_of_eval {n : UInt32} {r : Snapshot × Tally}
    (hX : result (readExposure fs layout) = .ok X)
    (h : (Survey.attempt n).eval (shown fs layout X) = .ok (some r)) (e : Exposure) :
    (Survey.attempt n).run (machine fs layout wait) e = (.ok (some r), X) := by
  obtain ⟨S, tally⟩ := r
  obtain ⟨_, _, _, -, hg, hp, -⟩ := Survey.exists_told h
  have hanswer : (machine fs layout wait).answer .platform X = (shown fs layout X .platform, X) :=
    Prod.ext rfl (answer_platform_eq hX)
  rw [hp] at hanswer
  rw [run_attempt_eq hg (answer_platform_ok hanswer).2, run_machine hX, h]

/-- Where the files lead to a snapshot, a survey publishes it, whatever was exposed before. -/
theorem take_of_eval {S : Snapshot} {tally : Tally} (hX : result (readExposure fs layout) = .ok X)
    (h : (Survey.attempt 1).eval (shown fs layout X) = .ok (some (S, tally))) (p : Publisher)
    (e : Exposure) : p.take (machine fs layout wait) e = ((.ok (), p.publish S tally), X) := by
  have hrun : (Survey.settled p.backoff).run (machine fs layout wait) e
      = (.ok (some (S, tally)), X) :=
    Survey.run_settled (run_attempt_of_eval hX h e) (by rintro ⟨⟩)
  rw [Publisher.take_run, hrun]
  rfl

theorem exists_shown {p p' : Publisher}
    (h : p.take (machine fs layout wait) e = ((.ok (), p'), X)) :
    result (readExposure fs layout) = .ok X ∧ ∃ S tally,
      (Survey.attempt 1).eval (shown fs layout X) = .ok (some (S, tally))
        ∧ p' = p.publish S tally := by
  obtain ⟨S, tally, hrun, -⟩ := Publisher.take_ok h
  obtain ⟨n, u, hacc⟩ := Survey.exists_accepted hrun
  obtain ⟨hX, heval⟩ := run_attempt_ok hacc.run_eq
  have hfirst := Survey.eval_attempt_number heval 1
  rw [take_of_eval hX hfirst] at h
  exact ⟨hX, S, _, hfirst, (Prod.mk.inj (Prod.mk.inj h).1).2.symm⟩

end ComputeTopology.Sysfs
