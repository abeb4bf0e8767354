import ComputeTopology.Survey.Basic
import Mathlib.Tactic.Common

/-!
# Transcripts

The transcript of a run holds what was asked and answered, in order, each exchange with the state
that the machine was in after it. A run is determined by its transcript: if every exchange is as a
machine without a state would have it, so is the result (`run_fst_of_agrees`). A run ends with a
fault exactly if its last exchange does, and no exchange before the last one is a fault
(`transcript_of_run_error`, `answer_of_run_ok`).
-/

namespace ComputeTopology

/-- A probe and what it was answered with. -/
structure Exchange where
  probe : Probe
  answer : Except Fault probe.Answer

namespace Exchange

/-- The exchange is as `answer` has it. -/
def Agrees (answer : (p : Probe) → Except Fault p.Answer) (e : Exchange) : Prop :=
  e.answer = answer e.probe

/-- The fault that the probe was answered with, if it was. -/
def fault? (e : Exchange) : Option Fault :=
  match e.answer with
  | .ok _ => none
  | .error f => some f

end Exchange

/-- The machine never leaves the states that have the property. -/
structure Machine.Keeps {σ : Type} (M : Machine (StateM σ)) (P : σ → Prop) : Prop where
  answer : ∀ p s, P s → P (M.answer p s).2
  wait : ∀ ms s, P s → P (M.wait ms s).2

namespace Survey

variable {α β σ : Type}

/-- The exchanges of a run, each with the state of the machine after it. -/
def transcript (M : Machine (StateM σ)) : Survey α → σ → List (Exchange × σ)
  | done _, _ => []
  | ask p next, s =>
    match M.answer p s with
    | (.ok answer, t) => (⟨p, .ok answer⟩, t) :: transcript M (next answer) t
    | (.error e, t) => [(⟨p, .error e⟩, t)]
  | pause ms next, s => transcript M next (M.wait ms s).2

/-- The result of a run whose answers do not change. -/
def eval (answer : (p : Probe) → Except Fault p.Answer) : Survey α → Except Fault α
  | done a => .ok a
  | ask p next =>
    match answer p with
    | .ok a => (next a).eval answer
    | .error e => .error e
  | pause _ next => next.eval answer

section Transcript

variable {M : Machine (StateM σ)} {s t : σ}

@[simp]
theorem transcript_done (a : α) : transcript M (done a) s = [] := rfl

theorem transcript_ask_ok {p : Probe} {next : p.Answer → Survey α} {answer : p.Answer}
    (h : M.answer p s = (.ok answer, t)) :
    (ask p next).transcript M s = (⟨p, .ok answer⟩, t) :: (next answer).transcript M t := by
  simp only [transcript, h]

theorem transcript_ask_error {p : Probe} {next : p.Answer → Survey α} {e : Fault}
    (h : M.answer p s = (.error e, t)) :
    (ask p next).transcript M s = [(⟨p, .error e⟩, t)] := by
  simp only [transcript, h]

theorem transcript_pause {ms : UInt64} {next : Survey α} :
    (pause ms next).transcript M s = next.transcript M (M.wait ms s).2 := rfl

theorem transcript_bind (x : Survey α) (f : α → Survey β) (s : σ) :
    (x.bind f).transcript M s = x.transcript M s ++
      match x.run M s with
      | (.ok a, t) => (f a).transcript M t
      | (.error _, _) => [] := by
  induction x generalizing s with
  | done a => simp [bind]
  | ask p next ih =>
    rcases h : M.answer p s with ⟨_ | answer, t⟩
    · rw [bind, transcript_ask_error h, transcript_ask_error h, run_ask_error h]
      simp
    · rw [bind, transcript_ask_ok h, transcript_ask_ok h, run_ask_ok h, ih, List.cons_append]
  | pause ms next ih => rw [bind, transcript_pause, transcript_pause, run_pause, ih]

theorem transcript_bind_ok {x : Survey α} {f : α → Survey β} {a : α}
    (h : x.run M s = (.ok a, t)) :
    (x.bind f).transcript M s = x.transcript M s ++ (f a).transcript M t := by
  rw [transcript_bind, h]

theorem run_bind_ok {x : Survey α} {f : α → Survey β} {a : α} (h : x.run M s = (.ok a, t)) :
    (x.bind f).run M s = (f a).run M t := by
  rw [run_bind, h]

theorem run_bind_error {x : Survey α} {f : α → Survey β} {e : Fault}
    (h : x.run M s = (.error e, t)) : (x.bind f).run M s = (.error e, t) := by
  rw [run_bind, h]

/-- A run whose exchanges all agree with fixed answers has the result that these lead to. -/
theorem run_fst_of_agrees {answer : (p : Probe) → Except Fault p.Answer} :
    ∀ (x : Survey α) (s : σ), (∀ e ∈ x.transcript M s, e.1.Agrees answer) →
      (x.run M s).1 = x.eval answer
  | done a, s, _ => rfl
  | ask p next, s, hx => by
    rcases h : M.answer p s with ⟨e | a, t⟩
    · rw [transcript_ask_error h] at hx
      have hp : answer p = .error e := (hx _ List.mem_cons_self).symm
      rw [run_ask_error h, eval, hp]
    · rw [transcript_ask_ok h] at hx
      have hp : answer p = .ok a := (hx _ List.mem_cons_self).symm
      rw [run_ask_ok h, eval, hp]
      exact run_fst_of_agrees (next a) t fun e he => hx e (List.mem_cons_of_mem _ he)
  | pause ms next, s, hx => run_fst_of_agrees next (M.wait ms s).2 hx

/-- Runs of one survey over two machines that answer alike have one result. -/
theorem run_fst_of_exchanges_eq {τ : Type} {N : Machine (StateM τ)} :
    ∀ (x : Survey α) {s : σ} {u : τ},
      (x.transcript M s).map (·.1) = (x.transcript N u).map (·.1) →
        (x.run M s).1 = (x.run N u).1
  | done _, _, _, _ => rfl
  | ask p next, s, u, h => by
    rcases hM : M.answer p s with ⟨e | a, t⟩ <;> rcases hN : N.answer p u with ⟨f | b, v⟩
    · rw [transcript_ask_error hM, transcript_ask_error hN] at h
      rw [run_ask_error hM, run_ask_error hN]
      cases h
      rfl
    · rw [transcript_ask_error hM, transcript_ask_ok hN] at h
      cases h
    · rw [transcript_ask_ok hM, transcript_ask_error hN] at h
      cases h
    · rw [transcript_ask_ok hM, transcript_ask_ok hN, List.map_cons, List.map_cons] at h
      obtain ⟨hexchange, hrest⟩ := List.cons.inj h
      cases hexchange
      rw [run_ask_ok hM, run_ask_ok hN]
      exact run_fst_of_exchanges_eq (next a) hrest
  | pause ms next, s, u, h => run_fst_of_exchanges_eq next h

/-- Every exchange of a run is an answer of the machine, given in a state that it keeps to. -/
theorem exists_answer_of_keeps {P : σ → Prop} (hM : M.Keeps P) :
    ∀ (x : Survey α) {s : σ}, P s → ∀ e ∈ x.transcript M s,
      ∃ u, P u ∧ M.answer e.1.probe u = (e.1.answer, e.2)
  | done _, _, _ => by simp
  | ask p next, s, hs => by
    have hkept := hM.answer p s hs
    rcases h : M.answer p s with ⟨f | a, u⟩ <;> rw [h] at hkept
    · rw [transcript_ask_error h]
      intro e he
      obtain rfl := List.mem_singleton.1 he
      exact ⟨s, hs, h⟩
    · rw [transcript_ask_ok h]
      intro e he
      rcases List.mem_cons.1 he with rfl | he
      · exact ⟨s, hs, h⟩
      · exact exists_answer_of_keeps hM (next a) hkept e he
  | pause ms next, s, hs => exists_answer_of_keeps hM next (hM.wait ms s hs)

theorem exists_answer_of_mem {x : Survey α} {e : Exchange × σ} (he : e ∈ x.transcript M s) :
    ∃ u, M.answer e.1.probe u = (e.1.answer, e.2) := by
  have hM : M.Keeps fun _ => True := ⟨fun _ _ _ => trivial, fun _ _ _ => trivial⟩
  obtain ⟨u, -, hu⟩ := exists_answer_of_keeps hM x trivial e he
  exact ⟨u, hu⟩

theorem answer_of_run_ok :
    ∀ (x : Survey α) {s : σ} {a : α}, x.run M s = (.ok a, t) →
      ∀ e ∈ x.transcript M s, e.1.fault? = none
  | done _, s, a, _ => by simp
  | ask p next, s, a, hr => by
    rcases h : M.answer p s with ⟨f | b, u⟩
    · rw [run_ask_error h] at hr
      cases hr
    · rw [run_ask_ok h] at hr
      rw [transcript_ask_ok h]
      intro e he
      rcases List.mem_cons.1 he with rfl | he
      · rfl
      · exact answer_of_run_ok (next b) hr e he
  | pause ms next, s, a, hr => answer_of_run_ok next hr

/-- A run that ends with a fault was answered with it by the last probe, and with no fault
before. -/
theorem transcript_of_run_error :
    ∀ (x : Survey α) {s : σ} {f : Fault}, x.run M s = (.error f, t) →
      ∃ before p, x.transcript M s = before ++ [(⟨p, .error f⟩, t)]
        ∧ ∀ e ∈ before, e.1.fault? = none
  | done _, s, f, hr => by cases hr
  | ask p next, s, f, hr => by
    rcases h : M.answer p s with ⟨f' | b, u⟩
    · rw [run_ask_error h] at hr
      cases hr
      exact ⟨[], p, transcript_ask_error h, by simp⟩
    · rw [run_ask_ok h] at hr
      obtain ⟨before, q, hq, hb⟩ := transcript_of_run_error (next b) hr
      refine ⟨(⟨p, .ok b⟩, u) :: before, q, ?_, ?_⟩
      · rw [transcript_ask_ok h, hq, List.cons_append]
      · intro e he
        rcases List.mem_cons.1 he with rfl | he
        · rfl
        · exact hb e he
  | pause ms next, s, f, hr => transcript_of_run_error next hr

end Transcript

section Eval

variable {answer : (p : Probe) → Except Fault p.Answer}

theorem eval_bind (x : Survey α) (f : α → Survey β) :
    (x.bind f).eval answer = x.eval answer >>= fun a => (f a).eval answer := by
  induction x with
  | done a => rfl
  | ask p next ih =>
    rcases h : answer p with e | a
    · simp only [bind, eval, h]
      rfl
    · simp only [bind, eval, h]
      exact ih a
  | pause ms next ih => exact ih

/-- A run in a state that the machine keeps to is reading off the answers it gives there. -/
theorem run_of_keeps {M : Machine (StateM σ)} {s : σ} (hM : M.Keeps (· = s)) (x : Survey α) :
    x.run M s = (x.eval fun p => (M.answer p s).1, s) := by
  induction x with
  | done a => rfl
  | ask p next ih =>
    have hs := hM.answer p s rfl
    rcases h : M.answer p s with ⟨e | a, t⟩ <;> rw [h] at hs <;> obtain rfl : t = s := hs
    · rw [run_ask_error h]
      simp only [eval, h]
    · rw [run_ask_ok h, ih a]
      simp only [eval, h]
  | pause ms next ih =>
    rw [run_pause, hM.wait ms s rfl]
    exact ih

end Eval

end Survey

end ComputeTopology
