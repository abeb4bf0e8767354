import ComputeTopology.Proofs.Consistency
import ComputeTopology.Proofs.Reading

/-!
# What a survey may ask

A survey asks for no node beyond the platform's count and for no entry beyond the counts of its
node's report (`within_attempt`). A capture that has at least as much as those that the counts came
from can answer whatever is permitted (`Capture.exists_answer`), so an attempt at a capture always
finds a snapshot (`Capture.exists_attempt`).
-/

namespace ComputeTopology

/-- After the exchanges `before` the probe asks for something that was announced. -/
def Permitted (before : List Exchange) : Probe → Prop
  | .generation | .platform | .processors => True
  | .report i => ∃ platform, .told .platform platform ∈ before ∧ i.toNat < platform.nodes.toNat
  | .bank i b => ∃ r, .told (.report i) r ∈ before ∧ b.toNat < r.profile.banks.toNat
  | .cache i k => ∃ r, .told (.report i) r ∈ before ∧ k.toNat < r.profile.caches.toNat
  | .link i l peer => ∃ r, .told (.report i) r ∈ before ∧ l.toNat <
      if peer then r.peerLinks.toNat else r.profile.links.toNat - r.peerLinks.toNat
  | .processorCaches i _ => ∃ r, .told (.report i) r ∈ before

theorem toNat_ofNat_lt {k n : Nat} (h : k < n) : (UInt32.ofNat k).toNat < n :=
  Nat.lt_of_le_of_lt (Nat.mod_le k _) h

theorem Profile.nameAfter_counts (p : Profile) (table : List Processor) :
    (p.nameAfter table).banks = p.banks ∧ (p.nameAfter table).caches = p.caches
      ∧ (p.nameAfter table).links = p.links ∧ (p.nameAfter table).gpuId = p.gpuId := by
  unfold nameAfter
  split <;> exact ⟨rfl, rfl, rfl, rfl⟩

namespace Course

variable {α β : Type} {before : List Exchange} {s : Progress}

/-- The course asks only what is permitted after `before`. -/
def Asks (before : List Exchange) (s : Progress) (x : Course α) : Prop :=
  (x.run s).Within Permitted before

theorem asks_pure {a : α} : Asks before s (pure a) := trivial

theorem asks_bind {x : Course α} {f : α → Course β} (hx : Asks before s x)
    (hf : ∀ es a s', x.Reads s es a s' → Asks (before ++ es) s' (f a)) :
    Asks before s (x >>= f) := by
  rw [Asks, StateT.run_bind]
  exact Survey.within_bind hx fun es a h => hf es a.1 a.2 h

theorem asks_ask {p : Probe} (h : Permitted before p) : Asks before s (ask p) :=
  ⟨h, fun _ => trivial⟩

theorem asks_count {f : Tally → Tally} : Asks before s (count f) := trivial

theorem asks_processors : Asks before s processors := by
  refine asks_bind trivial fun es r s' _ => ?_
  rcases r.processors with _ | table
  · exact asks_bind (asks_ask trivial) fun _ _ _ _ => asks_bind trivial fun _ _ _ _ => asks_pure
  · exact asks_pure

theorem asks_entries {entry : UInt32 → Course α} :
    ∀ {left index : Nat} {before : List Exchange} {s : Progress},
      (∀ k < index + left, ∀ s es, Asks (before ++ es) s (entry (.ofNat k))) →
        Asks before s (entries entry index left)
  | 0, _, _, _, _ => asks_pure
  | left + 1, index, before, s, h => by
    refine asks_bind ?_ fun es a s' _ => asks_bind ?_ fun _ _ _ _ => asks_pure
    · simpa using h index (by omega) s []
    · refine asks_entries fun k hk s es' => ?_
      rw [List.append_assoc]
      exact h k (by omega) s _

theorem asks_named {p : Profile} : Asks before s (named p) := by
  rw [named]
  split_ifs
  · exact asks_pure
  · exact asks_bind asks_processors fun _ _ _ _ => asks_pure

theorem asks_caches {i : UInt32} {p : Profile} {r : Report}
    (hr : .told (.report i) r ∈ before) (hp : p.caches = r.profile.caches) :
    Asks before s (caches i p) := by
  rw [caches]
  split_ifs
  · refine asks_entries fun k hk s es => asks_ask ⟨r, List.mem_append_left _ hr, ?_⟩
    rw [hp, Nat.zero_add] at hk
    exact toNat_ofNat_lt hk
  · exact asks_pure
  · exact asks_bind asks_processors fun _ _ _ _ => asks_ask ⟨r, List.mem_append_left _ hr⟩

theorem asks_links {i : UInt32} {peer : Bool} {capacity : Nat} :
    ∀ {left index : Nat} {known : List Link} {before : List Exchange} {s : Progress},
      (∀ k < index + left, ∀ es, Permitted (before ++ es) (.link i (.ofNat k) peer)) →
        Asks before s (links i peer capacity index left known)
  | 0, _, _, _, _, _ => asks_pure
  | left + 1, index, known, before, s, h => by
    rw [links]
    split_ifs
    · exact asks_pure
    · refine asks_bind (asks_ask (by simpa using h index (by omega) [])) fun es answer s' _ => ?_
      have hnext : ∀ known es' s', Asks (before ++ es ++ es') s'
          (links i peer capacity (index + 1) left known) := fun known es' s' => by
        refine asks_links fun k hk es'' => ?_
        rw [List.append_assoc, List.append_assoc]
        exact h k (by omega) _
      rcases answer with _ | link
      · exact asks_bind asks_count fun es' _ s' _ => hnext _ es' s'
      · exact asks_bind asks_count fun es' _ s' _ => hnext _ es' s'

theorem reads_named_counts {p p' : Profile} {s' : Progress} {es : List Exchange}
    (h : (named p).Reads s es p' s') :
    p'.banks = p.banks ∧ p'.caches = p.caches ∧ p'.links = p.links ∧ p'.gpuId = p.gpuId := by
  rcases reads_named h with ⟨-, rfl, -, -⟩ | ⟨-, table, -, rfl⟩
  · exact ⟨rfl, rfl, rfl, rfl⟩
  · exact Profile.nameAfter_counts p table

theorem asks_node {nodes i : UInt32} (h : Permitted before (.report i)) :
    Asks before s (node nodes i) := by
  rw [node]
  refine asks_bind (asks_ask h) fun _ report _ hreport => ?_
  obtain ⟨rfl, rfl⟩ := reads_ask.1 hreport
  have hmem : ∀ es, .told (.report i) report ∈ before ++ [.told (.report i) report] ++ es :=
    fun es => by simp
  refine asks_bind asks_named fun es profile s₁ hnamed => ?_
  obtain ⟨hbanks, hcaches, hlinks, -⟩ := reads_named_counts hnamed
  refine asks_bind (asks_entries fun k hk _ es' => asks_ask ⟨report, ?_, ?_⟩) fun es₂ _ _ _ => ?_
  · simp
  · rw [hbanks, Nat.zero_add] at hk
    exact toNat_ofNat_lt hk
  refine asks_bind (asks_caches (r := report) (by simp) hcaches) fun es₃ _ _ _ => ?_
  refine asks_bind (asks_links fun k hk es' => ⟨report, by simp, ?_⟩) fun es₄ _ _ _ => ?_
  · rw [hlinks, Nat.zero_add] at hk
    exact toNat_ofNat_lt hk
  refine asks_bind (asks_links fun k hk es' => ⟨report, by simp, ?_⟩) fun es₅ _ _ _ => ?_
  · rw [Nat.zero_add] at hk
    exact toNat_ofNat_lt hk
  exact asks_bind asks_count fun _ _ _ _ => asks_pure

end Course

theorem NodeReading.Along.profile_counts {nodes i : UInt32} {s s' : Progress}
    {es : List Exchange} {r : NodeReading} (hr : r.Along nodes i s es s') :
    r.profile.banks = r.report.profile.banks ∧ r.profile.caches = r.report.profile.caches
      ∧ r.profile.links = r.report.profile.links := by
  obtain ⟨_, _, _, _, hnamed, -⟩ := hr.exchanges
  obtain ⟨hbanks, hcaches, hlinks, -⟩ := Course.reads_named_counts hnamed
  exact ⟨hbanks, hcaches, hlinks⟩

namespace Survey

theorem within_content {before : List Exchange} : Within Permitted before content := by
  refine within_bind (within_probe trivial) fun _ platform hp => ?_
  obtain rfl := reads_probe.1 hp
  refine within_bind ?_ fun _ _ _ => within_pure
  refine Course.asks_entries fun k hk s es => Course.asks_node ⟨platform, by simp, ?_⟩
  rw [Nat.zero_add] at hk
  exact toNat_ofNat_lt hk

theorem within_attempt (before : List Exchange) (number : UInt32) :
    Within Permitted before (attempt number) := by
  rw [attempt_eq]
  exact ⟨trivial, fun _ => within_bind within_content fun _ _ _ => ⟨trivial, fun _ => trivial⟩⟩

end Survey

/-- At least as many entries in each table. -/
structure CapturedNode.Covers (n m : CapturedNode) : Prop where
  banks : m.banks.length ≤ n.banks.length
  caches : m.caches.length ≤ n.caches.length
  links : m.links.length ≤ n.links.length
  peerLinks : m.peerLinks.length ≤ n.peerLinks.length

instance (n m : CapturedNode) : Decidable (n.Covers m) :=
  decidable_of_iff
    (m.banks.length ≤ n.banks.length ∧ m.caches.length ≤ n.caches.length
      ∧ m.links.length ≤ n.links.length ∧ m.peerLinks.length ≤ n.peerLinks.length)
    ⟨fun ⟨hb, hc, hl, hp⟩ => ⟨hb, hc, hl, hp⟩, fun h => ⟨h.banks, h.caches, h.links, h.peerLinks⟩⟩

theorem CapturedNode.Covers.refl (n : CapturedNode) : n.Covers n :=
  ⟨Nat.le_refl _, Nat.le_refl _, Nat.le_refl _, Nat.le_refl _⟩

theorem CapturedNode.Covers.table {n m : CapturedNode} (h : n.Covers m) (peer : Bool) :
    (m.table peer).length ≤ (n.table peer).length := by
  cases peer
  · exact h.links
  · exact h.peerLinks

namespace Capture

/-- At least as many nodes, and each with at least as many entries. -/
structure Covers (c a : Capture) : Prop where
  nodes : a.nodes.length ≤ c.nodes.length
  tables : ∀ x ∈ a.nodes.zip c.nodes, x.2.Covers x.1

instance (c a : Capture) : Decidable (c.Covers a) :=
  decidable_of_iff
    (a.nodes.length ≤ c.nodes.length ∧ ∀ x ∈ a.nodes.zip c.nodes, x.2.Covers x.1)
    ⟨fun ⟨hn, ht⟩ => ⟨hn, ht⟩, fun h => ⟨h.nodes, h.tables⟩⟩

theorem Covers.exists_node {c a : Capture} (h : c.Covers a) {i : Nat} {m : CapturedNode}
    (hm : a.nodes[i]? = some m) : ∃ n, c.nodes[i]? = some n ∧ n.Covers m := by
  have hlt := Nat.lt_of_lt_of_le (List.getElem?_eq_some_iff.1 hm).1 h.nodes
  have hn := List.getElem?_eq_getElem hlt
  exact ⟨_, hn, h.tables (m, _)
    (List.mem_of_getElem? (List.getElem?_zip_eq_some.2 ⟨hm, hn⟩))⟩

theorem Covers.refl (c : Capture) : c.Covers c where
  nodes := Nat.le_refl _
  tables x hx := by
    obtain ⟨i, hi⟩ := List.getElem?_of_mem hx
    obtain ⟨h₁, h₂⟩ := List.getElem?_zip_eq_some.1 hi
    rw [Option.some.inj (h₁.symm.trans h₂)]
    exact .refl _

theorem node_eq_ok {c : Capture} {i : UInt32} {n : CapturedNode} :
    c.node i = .ok n ↔ c.nodes[i.toNat]? = some n := by
  unfold node
  split <;> rename_i h <;> simp [h]

theorem exists_of_answer_report {c : Capture} {i : UInt32} {r : Report}
    (h : c.answer (.report i) = .ok r) : ∃ n, c.nodes[i.toNat]? = some n ∧ r = n.report := by
  rw [answer] at h
  rcases hn : c.node i with f | n <;> rw [hn] at h <;> cases h
  exact ⟨n, node_eq_ok.1 hn, rfl⟩

theorem exists_entry {α : Type} {c : Capture} {i k : UInt32} {kind : String} {n : CapturedNode}
    (table : CapturedNode → List α) (hn : c.node i = .ok n) (h : k.toNat < (table n).length) :
    ∃ a, (do entry i kind (table (← c.node i)) k) = .ok a := by
  refine ⟨(table n)[k.toNat], ?_⟩
  rw [hn]
  change entry i kind (table n) k = _
  rw [entry, List.getElem?_eq_getElem h]

/-- The number of links that a report leaves to one of the node's tables. -/
theorem links_report_le (n : CapturedNode) (peer : Bool) :
    (if peer then n.report.peerLinks.toNat
      else n.report.profile.links.toNat - n.report.peerLinks.toNat) ≤ (n.table peer).length := by
  have hmod : ∀ k : Nat, (UInt32.ofNat k).toNat = k % 2 ^ 32 := fun k => UInt32.toNat_ofNat'
  have hpeers : n.report.peerLinks = .ofNat n.peerLinks.length := rfl
  have hlinks : n.report.profile.links = .ofNat n.links.length + .ofNat n.peerLinks.length := rfl
  rw [hlinks, hpeers, UInt32.toNat_add, hmod, hmod]
  cases peer
  · have : n.table false = n.links := rfl
    rw [this]
    simp only [Bool.false_eq_true, if_false]
    omega
  · have : n.table true = n.peerLinks := rfl
    rw [this]
    simp only [if_true]
    omega

theorem unavailable_of_node {c : Capture} {i : UInt32} {f : Fault} (h : c.node i = .error f) :
    ∃ resource detail, f = .unavailable resource detail := by
  unfold node at h
  split at h <;> cases h
  exact ⟨_, _, rfl⟩

theorem unavailable_of_entry {α : Type} {i k : UInt32} {kind : String} {table : List α} {f : Fault}
    (h : entry i kind table k = .error f) : ∃ resource detail, f = .unavailable resource detail := by
  unfold entry at h
  split at h <;> cases h
  exact ⟨_, _, rfl⟩

/-- The one fault of a capture is that something is not there. -/
theorem unavailable_of_answer {c : Capture} {f : Fault} {p : Probe} (h : c.answer p = .error f) :
    ∃ resource detail, f = .unavailable resource detail := by
  have hnode : ∀ {α : Type} {i : UInt32} {g : CapturedNode → Except Fault α},
      c.node i >>= g = .error f → (∀ n, g n = .error f → ∃ r d, f = .unavailable r d) →
        ∃ r d, f = .unavailable r d := by
    intro α i g h hg
    rcases hn : c.node i with e | n <;> rw [hn] at h
    · cases h
      exact unavailable_of_node hn
    · exact hg n h
  cases p with
  | generation => cases h
  | platform => cases h
  | processors => cases h
  | report i =>
    rcases hn : c.node i with e | n <;> rw [answer, hn] at h <;> cases h
    exact unavailable_of_node hn
  | processorCaches i table =>
    rcases hn : c.node i with e | n <;> rw [answer, hn] at h <;> cases h
    exact unavailable_of_node hn
  | bank i b => exact hnode h fun n h => unavailable_of_entry h
  | cache i k => exact hnode h fun n h => unavailable_of_entry h
  | link i l peer => exact hnode h fun n h => unavailable_of_entry h

/-- What was announced by captures that `c` covers, `c` can answer. -/
theorem exists_answer {c : Capture} {before : List Exchange}
    (hb : ∀ e ∈ before, ∃ a : Capture, c.Covers a ∧ e.Agrees a.answer) :
    ∀ {p : Probe}, Permitted before p → ∃ v, c.answer p = .ok v := by
  have hreport : ∀ {i r}, .told (.report i) r ∈ before →
      ∃ m n, r = CapturedNode.report m ∧ c.node i = .ok n ∧ n.Covers m := by
    intro i r hr
    obtain ⟨a, hca, ha⟩ := hb _ hr
    obtain ⟨m, hm, rfl⟩ := exists_of_answer_report ha.symm
    obtain ⟨n, hn, hcovers⟩ := hca.exists_node hm
    exact ⟨m, n, rfl, node_eq_ok.2 hn, hcovers⟩
  intro p hp
  cases p with
  | generation => exact ⟨_, rfl⟩
  | platform => exact ⟨_, rfl⟩
  | processors => exact ⟨_, rfl⟩
  | report i =>
    obtain ⟨platform, hp, hlt⟩ := hp
    obtain ⟨a, hca, ha⟩ := hb _ hp
    obtain rfl : platform = { a.platform with nodes := .ofNat a.nodes.length } := Except.ok.inj ha
    have hlt' : i.toNat < c.nodes.length :=
      Nat.lt_of_lt_of_le hlt (Nat.le_trans (Nat.mod_le _ _) hca.nodes)
    refine ⟨c.nodes[i.toNat].report, ?_⟩
    rw [answer, node_eq_ok.2 (List.getElem?_eq_getElem hlt')]
    rfl
  | bank i b =>
    obtain ⟨r, hr, hlt⟩ := hp
    obtain ⟨m, n, rfl, hn, hcovers⟩ := hreport hr
    exact exists_entry (·.banks) hn
      (Nat.lt_of_lt_of_le hlt (Nat.le_trans (Nat.mod_le _ _) hcovers.banks))
  | cache i k =>
    obtain ⟨r, hr, hlt⟩ := hp
    obtain ⟨m, n, rfl, hn, hcovers⟩ := hreport hr
    exact exists_entry (·.caches) hn
      (Nat.lt_of_lt_of_le hlt (Nat.le_trans (Nat.mod_le _ _) hcovers.caches))
  | link i l peer =>
    obtain ⟨r, hr, hlt⟩ := hp
    obtain ⟨m, n, rfl, hn, hcovers⟩ := hreport hr
    exact exists_entry (·.table peer) hn
      (Nat.lt_of_lt_of_le hlt (Nat.le_trans (links_report_le m peer) (hcovers.table peer)))
  | processorCaches i table =>
    obtain ⟨r, hr⟩ := hp
    obtain ⟨m, n, rfl, hn, -⟩ := hreport hr
    exact ⟨n.processorCaches, by rw [answer, hn]; rfl⟩

/-- A capture that is surveyed alone answers every probe of the survey. -/
theorem agrees_machine {α : Type} {c : Capture} (x : Survey α) :
    ∀ e ∈ (x.transcript machine c).map (·.1), e.Agrees c.answer := by
  have hM : machine.Keeps (· = c) := ⟨fun _ _ h => h, fun _ _ h => h⟩
  intro e he
  obtain ⟨y, hy, rfl⟩ := List.mem_map.1 he
  obtain ⟨u, rfl, hu⟩ := Survey.exists_answer_of_keeps hM x rfl y hy
  exact (congrArg Prod.fst hu).symm

theorem exists_attempt (c : Capture) (number : UInt32) :
    ∃ S tally, (Survey.attempt number).eval c.answer = .ok (some (S, tally)) := by
  rcases heval : (Survey.attempt number).eval c.answer with f | r
  · obtain ⟨es, p, hes, hp⟩ := Survey.exists_fault_of_within _
      (Survey.within_attempt [] number)
      ((run_machine _ c).trans (by rw [heval]))
    have hagree := agrees_machine (c := c) (Survey.attempt number)
    rw [hes, List.map_append] at hagree
    obtain ⟨v, hv⟩ := exists_answer (c := c)
      (fun e he => ⟨c, .refl c, hagree e (List.mem_append_left _ he)⟩) hp
    have herror : .error f = c.answer p := hagree ⟨p, .error f⟩ (by simp)
    cases herror.trans hv
  · rw [Survey.eval_attempt] at heval
    rcases hc : Survey.content.eval c.answer with f | x <;> rw [hc] at heval <;> cases heval
    exact ⟨_, _, rfl⟩

end Capture

end ComputeTopology
