import ComputeTopology.Proofs.Retry

/-!
# The history of a publisher

A publisher is asked to take snapshots, to acquire the platform, to release, and to show what it
holds, in any order and over any machine. What it holds then follows from the history alone
(`Faithful`): the snapshot of the latest success unless a release came after it, the tally of the
latest success in any case. What it shows when it is looked at is what it holds at that time, and
it stays as it is (`Displays`). All that a single operation can do is an `Outcome`: one that fails
changes neither snapshot nor tally, and only a survey that succeeds issues a serial number, which
from then on stands for the one publication (`Outcome.eq_of_serial_eq`, `shown_cases`).
-/

namespace ComputeTopology.Publisher

/-- What a publisher shows without doing anything. -/
inductive View
  | publication
  | snapshot
  | tally
  | backoff
  deriving DecidableEq

inductive Operation
  | take
  | acquire
  | release
  | look (view : View)
  deriving DecidableEq

inductive Reply
  | taken (result : Except Fault Unit)
  | acquired (result : Except Fault Platform)
  | released
  | publication (current : Option Publication)
  | snapshot (result : Except Fault Snapshot)
  | tally (last : Option Tally)
  | backoff (policy : Backoff)

/-- The fault that the operation ended with, if it did. -/
def Reply.fault? : Reply → Option Fault
  | taken (.error f) => some f
  | acquired (.error f) => some f
  | snapshot (.error f) => some f
  | _ => none

def look (p : Publisher) : View → Reply
  | .publication => .publication p.current
  | .snapshot => .snapshot p.snapshot
  | .tally => .tally p.tally
  | .backoff => .backoff p.backoff

variable {σ : Type}

def perform (M : Machine (StateM σ)) (p : Publisher) : Operation → StateM σ (Reply × Publisher)
  | .take => do
    let (result, p) ← p.take M
    return (.taken result, p)
  | .acquire => do
    let (result, p) ← p.acquire M
    return (.acquired result, p)
  | .release => return (.released, p.release)
  | .look view => return (p.look view, p)

/-- One operation: the publisher and the state of the machine before it, its reply, and both
afterwards. -/
structure Event (σ : Type) where
  operation : Operation
  before : Publisher
  source : σ
  reply : Reply
  after : Publisher
  sourceAfter : σ

namespace Event

/-- The operation takes a snapshot, by itself or because nothing is published. -/
def Surveys (e : Event σ) : Prop :=
  e.operation = .take ∨ e.operation = .acquire ∧ e.before.current = none

def Succeeds (e : Event σ) : Prop :=
  e.Surveys ∧ e.reply.fault? = none

/-- `q` is published before the operation or after it. -/
def Shows (e : Event σ) (q : Publication) : Prop :=
  e.before.current = some q ∨ e.after.current = some q

def releases (e : Event σ) : Bool :=
  e.operation = .release

end Event

section Run

variable (M : Machine (StateM σ))

def eventOf (op : Operation) (p : Publisher) (s : σ) : Event σ where
  operation := op
  before := p
  source := s
  reply := (p.perform M op s).1.1
  after := (p.perform M op s).1.2
  sourceAfter := (p.perform M op s).2

def history : List Operation → Publisher → σ → List (Event σ)
  | [], _, _ => []
  | op :: ops, p, s =>
    eventOf M op p s :: history ops (eventOf M op p s).after (eventOf M op p s).sourceAfter

def afterAll : List Operation → Publisher → σ → Publisher
  | [], p, _ => p
  | op :: ops, p, s => afterAll ops (eventOf M op p s).after (eventOf M op p s).sourceAfter

end Run

variable {M : Machine (StateM σ)}

theorem acquire_held {p : Publisher} {q : Publication} (h : p.current = some q) (s : σ) :
    p.acquire M s = ((.ok q.snapshot.platform, p), s) := by
  unfold acquire
  rw [h]
  rfl

theorem acquire_none {p : Publisher} (h : p.current = none) (s : σ) :
    p.acquire M s =
      match p.take M s with
      | ((.ok (), p'), t) => ((p'.snapshot.map (·.platform), p'), t)
      | ((.error f, p'), t) => ((.error f, p'), t) := by
  unfold acquire
  rw [h]
  rcases hp : p.take M s with ⟨⟨_ | _, p'⟩, t⟩ <;>
    simp only [Bind.bind, StateT.bind, hp] <;> rfl

/-- What a survey leads to: a publication, or a fault and nothing else. -/
theorem take_cases (p : Publisher) (s : σ) :
    (∃ S tally t, (Survey.settled p.backoff).run M s = (.ok (some (S, tally)), t)
      ∧ p.take M s = ((.ok (), p.publish S tally), t))
    ∨ ∃ f t, p.take M s = ((.error f, p), t) := by
  rw [take_run]
  rcases (Survey.settled p.backoff).run M s with ⟨f | _ | ⟨S, tally⟩, t⟩
  · exact .inr ⟨f, t, rfl⟩
  · exact .inr ⟨_, t, rfl⟩
  · exact .inl ⟨S, tally, t, rfl, rfl⟩

/-- All that an operation can do: publish what its survey found, fail in its survey, release, or
show what there is. Only a survey asks the machine anything. -/
inductive Outcome (M : Machine (StateM σ)) (e : Event σ) : Prop
  | published (S : Snapshot) (tally : Tally) (succeeds : e.Succeeds)
    (found : (Survey.settled e.before.backoff).run M e.source
      = (.ok (some (S, tally)), e.sourceAfter))
    (after : e.after = e.before.publish S tally)
  | failed (surveys : e.Surveys) (f : Fault) (fault : e.reply.fault? = some f)
    (after : e.after = e.before)
  | released (surveys : ¬ e.Surveys) (release : e.operation = .release)
    (fault : e.reply.fault? = none) (after : e.after = e.before.release)
  | shown (surveys : ¬ e.Surveys) (release : e.operation ≠ .release) (after : e.after = e.before)

theorem eventOf_eq {op : Operation} {p p' : Publisher} {s t : σ} {reply : Reply}
    (h : p.perform M op s = ((reply, p'), t)) :
    eventOf M op p s = ⟨op, p, s, reply, p', t⟩ := by
  simp only [eventOf, h]

theorem perform_take {p p' : Publisher} {s t : σ} {r : Except Fault Unit}
    (h : p.take M s = ((r, p'), t)) : p.perform M .take s = ((.taken r, p'), t) := by
  simp only [perform, Bind.bind, StateT.bind, h]
  rfl

theorem perform_acquire {p p' : Publisher} {s t : σ} {r : Except Fault Platform}
    (h : p.acquire M s = ((r, p'), t)) : p.perform M .acquire s = ((.acquired r, p'), t) := by
  simp only [perform, Bind.bind, StateT.bind, h]
  rfl

theorem outcome_take (p : Publisher) (s : σ) : Outcome M (eventOf M .take p s) := by
  rcases take_cases (M := M) p s with ⟨S, tally, t, hrun, h⟩ | ⟨f, t, h⟩ <;>
    rw [eventOf_eq (perform_take h)]
  · exact .published S tally ⟨.inl rfl, rfl⟩ hrun rfl
  · exact .failed (.inl rfl) f rfl rfl

theorem outcome_acquire (p : Publisher) (s : σ) : Outcome M (eventOf M .acquire p s) := by
  rcases hq : p.current with _ | q
  · have hs : ∀ reply p' t, (⟨.acquire, p, s, reply, p', t⟩ : Event σ).Surveys :=
      fun _ _ _ => .inr ⟨rfl, hq⟩
    rcases take_cases (M := M) p s with ⟨S, tally, t, hrun, h⟩ | ⟨f, t, h⟩ <;>
      have ha := acquire_none (M := M) hq s <;> rw [h] at ha <;>
      rw [eventOf_eq (perform_acquire ha)]
    · exact .published S tally ⟨hs _ _ _, rfl⟩ hrun rfl
    · exact .failed (hs _ _ _) f rfl rfl
  · rw [eventOf_eq (perform_acquire (acquire_held hq s))]
    refine .shown ?_ (by rintro ⟨⟩) rfl
    rintro (h | ⟨-, h⟩)
    · cases h
    · cases hq.symm.trans h

theorem outcome_eventOf (p : Publisher) (s : σ) : ∀ op : Operation, Outcome M (eventOf M op p s)
  | .take => outcome_take p s
  | .acquire => outcome_acquire p s
  | .release => .released (by rintro (h | ⟨h, -⟩) <;> cases h) rfl rfl rfl
  | .look _ => .shown (by rintro (h | ⟨h, -⟩) <;> cases h) (by rintro ⟨⟩) rfl

theorem Outcome.after_of_not_succeeds {e : Event σ} (h : Outcome M e) (hs : ¬ e.Succeeds) :
    e.after.tally = e.before.tally
      ∧ e.after.current = if e.releases then none else e.before.current := by
  rcases h with ⟨_, _, hsucceeds, -, -⟩ | ⟨hsurveys, f, hf, hafter⟩ | ⟨-, hr, -, hafter⟩ |
    ⟨-, hr, hafter⟩
  · exact absurd hsucceeds hs
  · have hr : e.operation ≠ .release := by
      rcases hsurveys with h | ⟨h, -⟩ <;> rw [h] <;> rintro ⟨⟩
    simp [hafter, Event.releases, hr]
  · simp [hafter, Event.releases, hr, release]
  · simp [hafter, Event.releases, hr]

theorem Outcome.after_of_succeeds {e : Event σ} (h : Outcome M e) (hs : e.Succeeds) :
    ∃ S tally, (Survey.settled e.before.backoff).run M e.source
        = (.ok (some (S, tally)), e.sourceAfter) ∧ e.after = e.before.publish S tally := by
  rcases h with ⟨S, tally, -, hrun, hafter⟩ | ⟨-, f, hf, -⟩ | ⟨hsurveys, -, -, -⟩ |
    ⟨hsurveys, -, -⟩
  · exact ⟨S, tally, hrun, hafter⟩
  · cases hs.2.symm.trans hf
  · exact absurd hs.1 hsurveys
  · exact absurd hs.1 hsurveys

theorem Outcome.after_of_fault {e : Event σ} (h : Outcome M e) {f : Fault}
    (hf : e.reply.fault? = some f) : e.after = e.before := by
  rcases h with ⟨_, _, hsucceeds, -, -⟩ | ⟨-, -, -, hafter⟩ | ⟨-, -, hnone, -⟩ | ⟨-, -, hafter⟩
  · cases hsucceeds.2.symm.trans hf
  · exact hafter
  · cases hnone.symm.trans hf
  · exact hafter

/-! ## Serial numbers -/

/-- What is published bears a serial number that has been issued. -/
def Issued (p : Publisher) : Prop :=
  ∀ q, p.current = some q → q.serial < p.issued

/-- A publication is passed on, withdrawn, or replaced by one with the next serial number. -/
theorem Outcome.current_after {e : Event σ} (h : Outcome M e) :
    e.before.issued ≤ e.after.issued ∧ ∀ q, e.after.current = some q →
      e.before.current = some q
        ∨ q.serial = e.before.issued ∧ e.after.issued = e.before.issued + 1 := by
  rcases h with ⟨S, tally, -, -, hafter⟩ | ⟨-, -, -, hafter⟩ | ⟨-, -, -, hafter⟩ |
    ⟨-, -, hafter⟩ <;> rw [hafter]
  · refine ⟨Nat.le_succ _, fun q hq => .inr ?_⟩
    cases hq
    exact ⟨rfl, rfl⟩
  · exact ⟨Nat.le_refl _, fun q hq => .inl hq⟩
  · exact ⟨Nat.le_refl _, fun q hq => by cases hq⟩
  · exact ⟨Nat.le_refl _, fun q hq => .inl hq⟩

theorem Outcome.issued {e : Event σ} (h : Outcome M e) (hb : Issued e.before) :
    Issued e.after := by
  intro q hq
  obtain ⟨hle, hcases⟩ := h.current_after
  rcases hcases q hq with hq | ⟨hs, hi⟩
  · exact Nat.lt_of_lt_of_le (hb q hq) hle
  · omega

/-! ## Runs -/

theorem history_eq_append {M : Machine (StateM σ)} :
    ∀ {ops : List Operation} {p : Publisher} {s : σ} {pre post : List (Event σ)} {e : Event σ},
      history M ops p s = pre ++ e :: post →
        ∃ ops₁ ops₂, pre = history M ops₁ p s ∧ e.before = afterAll M ops₁ p s
          ∧ e = eventOf M e.operation e.before e.source
          ∧ post = history M ops₂ e.after e.sourceAfter
          ∧ afterAll M ops p s = afterAll M ops₂ e.after e.sourceAfter
  | [], p, s, pre, post, e, h => by cases pre <;> cases h
  | op :: ops, p, s, [], post, e, h => by
    obtain ⟨rfl, rfl⟩ := List.cons.inj h
    exact ⟨[], ops, rfl, rfl, rfl, rfl, rfl⟩
  | op :: ops, p, s, x :: pre, post, e, h => by
    obtain ⟨rfl, htail⟩ := List.cons.inj h
    obtain ⟨ops₁, ops₂, rfl, hbefore, he, hpost, hafter⟩ := history_eq_append htail
    exact ⟨op :: ops₁, ops₂, rfl, hbefore, he, hpost, hafter⟩

theorem outcome_of_mem {M : Machine (StateM σ)} {ops : List Operation} {p : Publisher} {s : σ}
    {e : Event σ} (he : e ∈ history M ops p s) : Outcome M e := by
  obtain ⟨pre, post, h⟩ := List.append_of_mem he
  obtain ⟨-, -, -, -, hevent, -⟩ := history_eq_append h
  rw [hevent]
  exact outcome_eventOf _ _ _

theorem afterAll_issued :
    ∀ (ops : List Operation) (p : Publisher) (s : σ), Issued p → Issued (afterAll M ops p s)
  | [], _, _, hp => hp
  | op :: ops, p, s, hp =>
    afterAll_issued ops _ _ ((outcome_eventOf p s op).issued hp)

theorem issued_le_afterAll :
    ∀ (ops : List Operation) (p : Publisher) (s : σ), p.issued ≤ (afterAll M ops p s).issued
  | [], _, _ => Nat.le_refl _
  | op :: ops, p, s =>
    Nat.le_trans (outcome_eventOf p s op).current_after.1 (issued_le_afterAll ops _ _)

/-- Without a success the tally stays, and so does what is published up to a release. -/
theorem afterAll_of_not_succeeds :
    ∀ (ops : List Operation) (p : Publisher) (s : σ),
      (∀ e ∈ history M ops p s, ¬ e.Succeeds) →
        (afterAll M ops p s).tally = p.tally ∧ (afterAll M ops p s).current
          = if (history M ops p s).any (·.releases) then none else p.current
  | [], _, _, _ => ⟨rfl, rfl⟩
  | op :: ops, p, s, h => by
    obtain ⟨htally, hcurrent⟩ := (outcome_eventOf p s op).after_of_not_succeeds
      (h _ List.mem_cons_self)
    obtain ⟨ht, hc⟩ := afterAll_of_not_succeeds ops _ _ fun e he => h e (List.mem_cons_of_mem _ he)
    refine ⟨ht.trans htally, hc.trans ?_⟩
    rw [hcurrent, history, List.any_cons]
    cases (eventOf M op p s).releases <;> simp [eventOf]

/-- What a history shows was published before it or has a serial number issued since. -/
theorem shown_cases :
    ∀ (ops : List Operation) (p : Publisher) (s : σ), ∀ e ∈ history M ops p s,
      ∀ q, e.Shows q → p.current = some q ∨ p.issued ≤ q.serial
  | [], _, _, _, he, _, _ => by cases he
  | op :: ops, p, s, e, he, q, hq => by
    obtain ⟨hle, hcurrent⟩ := (outcome_eventOf (M := M) p s op).current_after
    have hafter : (eventOf M op p s).after.current = some q →
        p.current = some q ∨ p.issued ≤ q.serial := fun h =>
      (hcurrent q h).imp_right fun h => Nat.le_of_eq h.1.symm
    rcases List.mem_cons.1 he with rfl | he
    · exact hq.elim .inl hafter
    · rcases shown_cases ops _ _ e he q hq with h | h
      · exact hafter h
      · exact .inr (Nat.le_trans hle h)

/-- What a history shows has a serial number issued by its end. -/
theorem shown_lt_issued :
    ∀ (ops : List Operation) (p : Publisher) (s : σ), Issued p → ∀ e ∈ history M ops p s,
      ∀ q, e.Shows q → q.serial < (afterAll M ops p s).issued
  | [], _, _, _, _, he, _, _ => by cases he
  | op :: ops, p, s, hp, e, he, q, hq => by
    have hout := outcome_eventOf (M := M) p s op
    rcases List.mem_cons.1 he with rfl | he
    · refine Nat.lt_of_lt_of_le ?_ (issued_le_afterAll ops _ _)
      rcases hq with hq | hq
      · exact Nat.lt_of_lt_of_le (hp q hq) hout.current_after.1
      · exact hout.issued hp q hq
    · exact shown_lt_issued ops _ _ (hout.issued hp) e he q hq

/-- The reply to a view of what the publisher holds. -/
inductive Displays (p : Publisher) : View → Reply → Prop
  | publication : Displays p .publication (.publication p.current)
  | snapshot (q : Publication) (current : p.current = some q) :
    Displays p .snapshot (.snapshot (.ok q.snapshot))
  | noSnapshot (current : p.current = none) : Displays p .snapshot (.snapshot (.error .noSnapshot))
  | tally : Displays p .tally (.tally p.tally)
  | backoff : Displays p .backoff (.backoff p.backoff)

theorem displays_look (p : Publisher) : ∀ view : View, Displays p view (p.look view)
  | .publication => .publication
  | .snapshot => by
    rw [look, Publisher.snapshot]
    rcases hq : p.current with _ | q
    · exact .noSnapshot hq
    · exact .snapshot q hq
  | .tally => .tally
  | .backoff => .backoff

/-- What acquiring the platform does: with something published it answers from that, over any
machine, and with nothing published it is a survey and then the platform just published. -/
inductive Acquisition (M : Machine (StateM σ)) (e : Event σ) : Prop
  | held (q : Publication) (current : e.before.current = some q)
    (quiet : ∀ {τ : Type} (M' : Machine (StateM τ)) (t : τ),
      e.before.perform M' .acquire t = ((.acquired (.ok q.snapshot.platform), e.before), t))
    (reply : e.reply = .acquired (.ok q.snapshot.platform)) (after : e.after = e.before)
  | surveyed (q : Publication) (current : e.before.current = none)
    (take : e.before.take M e.source = ((.ok (), e.after), e.sourceAfter))
    (after : e.after.current = some q) (reply : e.reply = .acquired (.ok q.snapshot.platform))
  | failed (f : Fault) (current : e.before.current = none)
    (take : e.before.take M e.source = ((.error f, e.after), e.sourceAfter))
    (reply : e.reply = .acquired (.error f))

theorem acquisition_eventOf (p : Publisher) (s : σ) :
    Acquisition M (eventOf M .acquire p s) := by
  rcases hq : p.current with _ | q
  · rcases take_cases (M := M) p s with ⟨S, tally, t, -, h⟩ | ⟨f, t, h⟩ <;>
      have ha := acquire_none (M := M) hq s <;> rw [h] at ha <;>
      rw [eventOf_eq (perform_acquire ha)]
    · exact .surveyed ⟨p.issued, S⟩ hq h rfl rfl
    · exact .failed f hq h rfl
  · rw [eventOf_eq (perform_acquire (acquire_held hq s))]
    exact .held q hq (fun M' t => perform_acquire (acquire_held hq t)) rfl rfl

/-- What the events `h` of a publisher that starts with nothing say of each other, and of the
publisher `p` after them. -/
structure Faithful (M : Machine (StateM σ)) (h : List (Event σ)) (p : Publisher) : Prop where
  latest : ∀ {pre post e}, h = pre ++ e :: post → e.Succeeds → (∀ x ∈ post, ¬ x.Succeeds) →
    ∃ q tally, (Survey.settled e.before.backoff).run M e.source
        = (.ok (some (q.snapshot, tally)), e.sourceAfter)
      ∧ e.after.current = some q ∧ p.tally = some tally
      ∧ p.current = if post.any (·.releases) then none else some q
  nothing : (∀ e ∈ h, ¬ e.Succeeds) → p.current = none ∧ p.tally = none
  unharmed : ∀ e ∈ h, ∀ f, e.reply.fault? = some f → e.after = e.before
  fresh : ∀ {pre post e q}, h = pre ++ e :: post → e.Succeeds → e.after.current = some q →
    ∀ x ∈ pre, ∀ q', x.Shows q' → q'.serial ≠ q.serial
  constant : ∀ {pre post e q}, h = pre ++ e :: post → e.Shows q →
    ∀ x ∈ e :: post, ∀ q', x.Shows q' → q'.serial = q.serial → q' = q
  acquired : ∀ e ∈ h, e.operation = .acquire → Acquisition M e
  looked : ∀ e ∈ h, ∀ view, e.operation = .look view →
    Displays e.before view e.reply ∧ e.after = e.before ∧ e.sourceAfter = e.source

/-- An event never shows two publications under one serial number. -/
theorem Outcome.eq_of_serial_eq {e : Event σ} (h : Outcome M e) (hb : Issued e.before)
    {q q' : Publication} (hq : e.Shows q) (hq' : e.Shows q') (hs : q'.serial = q.serial) :
    q' = q := by
  have hcases := h.current_after.2
  have key : ∀ a c, e.before.current = some a → e.after.current = some c →
      c.serial = a.serial → c = a := by
    intro a c ha hc hac
    rcases hcases c hc with hc | ⟨hc, -⟩
    · exact Option.some.inj (hc.symm.trans ha)
    · have := hb a ha
      omega
  rcases hq with hq | hq <;> rcases hq' with hq' | hq'
  · exact Option.some.inj (hq'.symm.trans hq)
  · exact key _ _ hq hq' hs
  · exact (key _ _ hq' hq hs.symm).symm
  · exact Option.some.inj (hq'.symm.trans hq)

/-- Whatever is asked of a new publisher over whatever machine, what it holds and answers follows
from what its surveys found. -/
theorem history_faithful (M : Machine (StateM σ)) (ops : List Operation) (b : Backoff) (s : σ) :
    Faithful M (history M ops { backoff := b } s) (afterAll M ops { backoff := b } s) := by
  have hstart : Issued { backoff := b } := fun q hq => by cases hq
  have hevent : ∀ e ∈ history M ops { backoff := b } s,
      e = eventOf M e.operation e.before e.source := by
    intro e he
    obtain ⟨pre, post, h⟩ := List.append_of_mem he
    obtain ⟨-, -, -, -, heq, -⟩ := history_eq_append h
    exact heq
  have hout : ∀ e ∈ history M ops { backoff := b } s, Outcome M e := fun e he => by
    rw [hevent e he]
    exact outcome_eventOf _ _ _
  constructor
  case latest =>
    intro pre post e h hs hpost
    obtain ⟨S, tally, hrun, hafter⟩ := (hout e (by simp [h])).after_of_succeeds hs
    obtain ⟨ops₁, ops₂, -, -, -, rfl, hend⟩ := history_eq_append h
    obtain ⟨ht, hc⟩ := afterAll_of_not_succeeds ops₂ e.after e.sourceAfter hpost
    refine ⟨⟨e.before.issued, S⟩, tally, hrun, by rw [hafter]; rfl, ?_, ?_⟩
    · rw [hend, ht, hafter]
      rfl
    · rw [hend, hc, hafter]
      rfl
  case nothing =>
    intro hnone
    obtain ⟨ht, hc⟩ := afterAll_of_not_succeeds ops { backoff := b } s hnone
    refine ⟨hc.trans ?_, ht⟩
    split_ifs <;> rfl
  case unharmed => exact fun e he f hf => (hout e he).after_of_fault hf
  case fresh =>
    intro pre post e q h hs hq x hx q' hq'
    obtain ⟨S, tally, -, hafter⟩ := (hout e (by simp [h])).after_of_succeeds hs
    obtain ⟨ops₁, ops₂, rfl, hbefore, -⟩ := history_eq_append h
    have hlt := shown_lt_issued ops₁ _ s hstart x hx q' hq'
    rw [← hbefore] at hlt
    rw [hafter] at hq
    cases hq
    exact Nat.ne_of_lt hlt
  case constant =>
    intro pre post e q h hq x hx q' hq' hserial
    have he := hout e (by simp [h])
    obtain ⟨ops₁, ops₂, rfl, hbefore, -, rfl, -⟩ := history_eq_append h
    have hb : Issued e.before := hbefore ▸ afterAll_issued ops₁ _ s hstart
    rcases List.mem_cons.1 hx with rfl | hx
    · exact he.eq_of_serial_eq hb hq hq' hserial
    · -- What shows later under an old serial number was there already when the event ended.
      rcases shown_cases ops₂ e.after e.sourceAfter x hx q' hq' with hnow | hlater
      · exact he.eq_of_serial_eq hb hq (.inr hnow) hserial
      · have : q.serial < e.after.issued := by
          rcases hq with hq | hq
          · exact Nat.lt_of_lt_of_le (hb q hq) he.current_after.1
          · exact he.issued hb q hq
        omega
  case acquired =>
    intro e he hop
    rw [hevent e he, hop]
    exact acquisition_eventOf _ _
  case looked =>
    intro e he view hop
    rw [hevent e he, hop]
    exact ⟨displays_look _ view, rfl, rfl⟩

end ComputeTopology.Publisher
