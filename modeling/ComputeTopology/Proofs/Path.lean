import ComputeTopology.Proofs.Transcript
import ComputeTopology.Survey.Attempt

/-!
# Paths through a survey

A path is a list of exchanges, none of them a fault, that leads a survey to a value (`Reads`). Every
run that ends with a value follows the path that its transcript gives (`reads_of_run_ok`), so what
holds of all paths holds over every machine. What a survey asks may depend on what it was told
before: `Within rule before` says that no probe breaks the rule, in a run that ends early as well
(`exists_fault_of_within`).

Both are followed through two surveys in a row (`reads_bind`, `within_bind`) and so through a course
step by step. A path whose survey keeps to a rule obeys it (`Within.obeys`), and a run that ends with
a fault has gone along a path up to there (`exists_follows`), so what every path obeys holds of every
run.
-/

namespace ComputeTopology

/-- The probe was answered with `v`. -/
def Exchange.told (p : Probe) (v : p.Answer) : Exchange :=
  ⟨p, .ok v⟩

namespace Survey

variable {α β σ : Type}

/-- The exchanges lead the survey to the value. -/
def Reads : Survey α → List Exchange → α → Prop
  | done a, es, b => es = [] ∧ a = b
  | ask p next, es, b => ∃ v es', es = .told p v :: es' ∧ (next v).Reads es' b
  | pause _ next, es, b => next.Reads es b

/-- Along every path that comes after the exchanges `before`, each probe obeys the rule. -/
def Within (rule : List Exchange → Probe → Prop) : List Exchange → Survey α → Prop
  | _, done _ => True
  | before, ask p next => rule before p ∧ ∀ v, Within rule (before ++ [.told p v]) (next v)
  | before, pause _ next => Within rule before next

theorem reads_pure {a b : α} {es : List Exchange} :
    (pure a : Survey α).Reads es b ↔ es = [] ∧ a = b := Iff.rfl

theorem reads_probe {p : Probe} {v : p.Answer} {es : List Exchange} :
    (probe p).Reads es v ↔ es = [.told p v] := by
  constructor
  · rintro ⟨w, es', rfl, rfl, rfl⟩
    rfl
  · rintro rfl
    exact ⟨v, [], rfl, rfl, rfl⟩

theorem reads_bind {f : α → Survey β} {b : β} :
    ∀ {x : Survey α} {es : List Exchange}, (x >>= f).Reads es b ↔
      ∃ es₁ a es₂, x.Reads es₁ a ∧ (f a).Reads es₂ b ∧ es = es₁ ++ es₂
  | done a, es => by
    constructor
    · exact fun h => ⟨[], a, es, ⟨rfl, rfl⟩, h, rfl⟩
    · rintro ⟨_, _, es₂, ⟨rfl, rfl⟩, h, rfl⟩
      exact h
  | ask p next, es => by
    constructor
    · rintro ⟨v, es', rfl, h⟩
      obtain ⟨es₁, a, es₂, h₁, h₂, rfl⟩ := reads_bind.1 h
      exact ⟨.told p v :: es₁, a, es₂, ⟨v, es₁, rfl, h₁⟩, h₂, rfl⟩
    · rintro ⟨_, a, es₂, ⟨v, es₁, rfl, h₁⟩, h₂, rfl⟩
      exact ⟨v, es₁ ++ es₂, rfl, reads_bind.2 ⟨es₁, a, es₂, h₁, h₂, rfl⟩⟩
  | pause ms next, es => reads_bind (x := next)

/-- A run that ends with a value has followed a path. -/
theorem reads_of_run_ok {M : Machine (StateM σ)} {t : σ} {a : α} :
    ∀ (x : Survey α) {s : σ}, x.run M s = (.ok a, t) →
      x.Reads ((x.transcript M s).map (·.1)) a
  | done _, _, h => by
    cases h
    exact ⟨rfl, rfl⟩
  | ask p next, s, h => by
    rcases hp : M.answer p s with ⟨f | v, u⟩
    · rw [run_ask_error hp] at h
      cases h
    · rw [run_ask_ok hp] at h
      rw [transcript_ask_ok hp]
      exact ⟨v, _, rfl, reads_of_run_ok (next v) h⟩
  | pause ms next, s, h => reads_of_run_ok next h

section Within

variable {rule : List Exchange → Probe → Prop}

theorem within_pure {a : α} {before : List Exchange} :
    Within rule before (pure a : Survey α) := trivial

theorem within_probe {p : Probe} {before : List Exchange} (h : rule before p) :
    Within rule before (probe p) := ⟨h, fun _ => trivial⟩

theorem within_bind {f : α → Survey β} :
    ∀ {x : Survey α} {before : List Exchange}, Within rule before x →
      (∀ es a, x.Reads es a → Within rule (before ++ es) (f a)) → Within rule before (x >>= f)
  | done a, before, _, hf => by
    have h := hf [] a ⟨rfl, rfl⟩
    rwa [List.append_nil] at h
  | ask p next, before, hx, hf => by
    refine ⟨hx.1, fun v => within_bind (hx.2 v) fun es a h => ?_⟩
    rw [List.append_assoc]
    exact hf _ a ⟨v, es, rfl, h⟩
  | pause ms next, before, hx, hf => within_bind (x := next) hx hf

/-- Where a run ends early, the probe that failed obeys the rule. -/
theorem exists_fault_of_within {M : Machine (StateM σ)} {t : σ} {f : Fault} :
    ∀ (x : Survey α) {before : List Exchange} {s : σ}, Within rule before x →
      x.run M s = (.error f, t) → ∃ es p, x.transcript M s = es ++ [(⟨p, .error f⟩, t)]
        ∧ rule (before ++ es.map (·.1)) p
  | done _, _, _, _, h => by cases h
  | ask p next, before, s, hx, h => by
    rcases hp : M.answer p s with ⟨g | v, u⟩
    · rw [run_ask_error hp] at h
      rw [transcript_ask_error hp]
      cases h
      exact ⟨[], p, rfl, by rw [List.map_nil, List.append_nil]; exact hx.1⟩
    · rw [run_ask_ok hp] at h
      rw [transcript_ask_ok hp]
      obtain ⟨es, q, hes, hq⟩ := exists_fault_of_within (next v) (hx.2 v) h
      refine ⟨(.told p v, u) :: es, q, by rw [hes]; rfl, ?_⟩
      rwa [List.append_assoc] at hq
  | pause ms next, _, _, hx, h => exists_fault_of_within next hx h

end Within

end Survey

instance (p : Probe) : Inhabited p.Answer :=
  match p with
  | .generation | .platform | .report _ | .bank _ _ | .cache _ _ | .link _ _ _ | .processors
  | .processorCaches _ _ => ⟨default⟩

/-- Each probe obeys the rule after the exchanges before it. -/
def Obeys (rule : List Exchange → Probe → Prop) : (before es : List Exchange) → Prop
  | _, [] => True
  | before, e :: es => rule before e.probe ∧ Obeys rule (before ++ [e]) es

/-- The exchanges are the path, or go along it up to a probe that is answered with a fault. -/
inductive Follows (path : List Exchange) : List Exchange → Prop
  | whole : Follows path path
  | cut (before : List Exchange) {rest : List Exchange} {p : Probe} {v : p.Answer} {f : Fault}
    (path_eq : path = before ++ .told p v :: rest) : Follows path (before ++ [⟨p, .error f⟩])

section Obeys

variable {rule : List Exchange → Probe → Prop} {path es : List Exchange}

theorem obeys_append : ∀ {es es' before : List Exchange},
    Obeys rule before (es ++ es') ↔ Obeys rule before es ∧ Obeys rule (before ++ es) es'
  | [], es', before => by simp [Obeys]
  | e :: es, es', before => by
    rw [List.cons_append, Obeys, Obeys, obeys_append, and_assoc, List.append_assoc,
      List.singleton_append]

theorem Follows.obeys {before : List Exchange} (h : Follows path es)
    (hpath : Obeys rule before path) : Obeys rule before es := by
  rcases h with _ | ⟨_, rfl⟩
  · exact hpath
  · obtain ⟨hbefore, hnext, -⟩ := obeys_append.1 hpath
    exact obeys_append.2 ⟨hbefore, hnext, trivial⟩

theorem Follows.cons {e : Exchange} (h : Follows path es) : Follows (e :: path) (e :: es) := by
  rcases h with _ | ⟨_, rfl⟩
  · exact .whole
  · exact .cut (e :: _) rfl

end Obeys

namespace Survey

variable {α σ : Type}

theorem Within.obeys {rule : List Exchange → Probe → Prop} {a : α} :
    ∀ {x : Survey α} {before es : List Exchange}, Within rule before x → x.Reads es a →
      Obeys rule before es
  | done _, _, _, _, ⟨rfl, _⟩ => trivial
  | ask _ _, _, _, hx, ⟨v, _, rfl, h⟩ => ⟨hx.1, (hx.2 v).obeys h⟩
  | pause _ next, _, _, hx, h => Within.obeys (x := next) hx h

theorem exists_reads : ∀ x : Survey α, ∃ es a, x.Reads es a
  | done a => ⟨[], a, rfl, rfl⟩
  | ask _ next =>
    let ⟨es, a, h⟩ := exists_reads (next default)
    ⟨_, a, default, es, rfl, h⟩
  | pause _ next => exists_reads next

/-- Every run goes along a path, as far as no probe is answered with a fault. -/
theorem exists_follows (M : Machine (StateM σ)) :
    ∀ (x : Survey α) (s : σ), ∃ path a, x.Reads path a
      ∧ Follows path ((x.transcript M s).map (·.1))
      ∧ ∀ b t, x.run M s = (.ok b, t) → (x.transcript M s).map (·.1) = path
  | done a, s => ⟨[], a, ⟨rfl, rfl⟩, .whole, fun _ _ _ => rfl⟩
  | ask p next, s => by
    rcases hp : M.answer p s with ⟨f | v, u⟩
    · obtain ⟨path, a, h⟩ := exists_reads (next default)
      rw [transcript_ask_error hp, run_ask_error hp]
      exact ⟨_, a, ⟨default, path, rfl, h⟩, .cut [] rfl, by rintro _ _ ⟨⟩⟩
    · obtain ⟨path, a, h, hfollows, hok⟩ := exists_follows M (next v) u
      rw [transcript_ask_ok hp, run_ask_ok hp]
      exact ⟨_, a, ⟨v, path, rfl, h⟩, hfollows.cons, fun b t hrun => by
        rw [List.map_cons, hok b t hrun]
        rfl⟩
  | pause _ next, s => exists_follows M next _

end Survey

namespace Course

variable {α β : Type} {s s' : Progress} {es : List Exchange}

/-- The exchanges lead the course to the value, and its memory from `s` to `s'`. -/
def Reads (x : Course α) (s : Progress) (es : List Exchange) (a : α) (s' : Progress) : Prop :=
  (x.run s).Reads es (a, s')

theorem reads_pure {a b : α} : (pure a : Course α).Reads s es b s' ↔ es = [] ∧ a = b ∧ s = s' := by
  rw [Reads, StateT.run_pure, Survey.reads_pure, Prod.mk.injEq]

theorem reads_bind {x : Course α} {f : α → Course β} {b : β} :
    (x >>= f).Reads s es b s' ↔ ∃ es₁ a s₁ es₂,
      x.Reads s es₁ a s₁ ∧ (f a).Reads s₁ es₂ b s' ∧ es = es₁ ++ es₂ := by
  rw [Reads, StateT.run_bind, Survey.reads_bind]
  constructor
  · rintro ⟨es₁, ⟨a, s₁⟩, es₂, h₁, h₂, rfl⟩
    exact ⟨es₁, a, s₁, es₂, h₁, h₂, rfl⟩
  · rintro ⟨es₁, a, s₁, es₂, h₁, h₂, rfl⟩
    exact ⟨es₁, (a, s₁), es₂, h₁, h₂, rfl⟩

theorem reads_ask {p : Probe} {v : p.Answer} :
    (ask p).Reads s es v s' ↔ es = [.told p v] ∧ s = s' := by
  constructor
  · rintro ⟨w, es', rfl, rfl, h⟩
    cases h
    exact ⟨rfl, rfl⟩
  · rintro ⟨rfl, rfl⟩
    exact ⟨v, [], rfl, rfl, rfl⟩

theorem reads_get {r : Progress} :
    (get : Course Progress).Reads s es r s' ↔ es = [] ∧ r = s ∧ s = s' := by
  constructor
  · rintro ⟨rfl, h⟩
    cases h
    exact ⟨rfl, rfl, rfl⟩
  · rintro ⟨rfl, rfl, rfl⟩
    exact ⟨rfl, rfl⟩

theorem reads_modify {f : Progress → Progress} :
    (modify f : Course Unit).Reads s es () s' ↔ es = [] ∧ f s = s' := by
  constructor
  · rintro ⟨rfl, h⟩
    cases h
    exact ⟨rfl, rfl⟩
  · rintro ⟨rfl, rfl⟩
    exact ⟨rfl, rfl⟩

theorem reads_count {f : Tally → Tally} :
    (count f).Reads s es () s' ↔ es = [] ∧ { s with tally := f s.tally } = s' :=
  reads_modify

end Course

end ComputeTopology
