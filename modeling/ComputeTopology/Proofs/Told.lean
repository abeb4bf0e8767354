import ComputeTopology.Proofs.Permitted
import ComputeTopology.Proofs.Surveyed

/-!
# Readings of fixed answers

With answers that do not change, a survey that finds a value has followed a path of these answers
(`Survey.exists_path`). So every node that an attempt makes is made from what there is to be told
about its index (`NodeReading.Told`), and an attempt that finds a snapshot is a reading of which all
nodes are (`Survey.exists_told`).
-/

namespace ComputeTopology

/-- The list holds the entries of a table, from the first one on. -/
def ReadFrom {α : Type} (entry : UInt32 → Except Fault α) (l : List α) : Prop :=
  ∀ (k : Nat) (a : α), l[k]? = some a → entry (.ofNat k) = .ok a

theorem ReadFrom.eq_of_length_eq {α : Type} {entry : UInt32 → Except Fault α} {l l' : List α}
    (h : ReadFrom entry l) (h' : ReadFrom entry l') (hlength : l.length = l'.length) : l = l' := by
  refine List.ext_getElem hlength fun k hk hk' => ?_
  have hl := h k _ (List.getElem?_eq_getElem hk)
  rw [h' k _ (List.getElem?_eq_getElem hk')] at hl
  exact (Except.ok.inj hl).symm

theorem ReadFrom.eq_take {α : Type} {entry : UInt32 → Except Fault α} {l table : List α}
    (h : ReadFrom entry l) (hlen : l.length ≤ UInt32.size)
    (htable : ∀ k a, k.toNat < l.length → entry k = .ok a → table[k.toNat]? = some a) :
    l = table.take l.length := by
  refine List.prefix_iff_eq_take.1 (List.prefix_iff_getElem?.2 fun k hk => ?_)
  have hk' : (UInt32.ofNat k).toNat = k :=
    UInt32.toNat_ofNat_of_lt' (Nat.lt_of_lt_of_le hk hlen)
  have hget := htable (.ofNat k) _ (hk'.symm ▸ hk) (h k _ (List.getElem?_eq_getElem hk))
  rwa [hk'] at hget

section Answer

variable {answer : (p : Probe) → Except Fault p.Answer}

theorem readFrom_of_agrees {α : Type} {entry : UInt32 → Except Fault α}
    (told : UInt32 → α → Exchange) (htold : ∀ k a, (told k a).Agrees answer → entry k = .ok a)
    {l : List α} (h : ∀ e ∈ l.zipIdx.map (fun x => told (.ofNat x.2) x.1), e.Agrees answer) :
    ReadFrom entry l := fun k a hk =>
  htold _ _ (h _ (List.mem_map.2 ⟨(a, k), List.mem_zipIdx_iff_getElem?.2 hk, rfl⟩))

/-- A survey that finds a value with fixed answers has followed a path of these. -/
theorem Survey.exists_path {α : Type} {a : α} :
    ∀ {x : Survey α}, x.eval answer = .ok a →
      ∃ es, x.Reads es a ∧ ∀ e ∈ es, e.Agrees answer
  | done _, h => by
    cases h
    exact ⟨[], ⟨rfl, rfl⟩, fun _ he => absurd he List.not_mem_nil⟩
  | ask p next, h => by
    rcases hp : answer p with f | v <;> simp only [eval, hp] at h
    · cases h
    · obtain ⟨es, hes, hagree⟩ := exists_path h
      refine ⟨.told p v :: es, ⟨v, es, rfl, hes⟩, fun e he => ?_⟩
      rcases List.mem_cons.1 he with rfl | he
      · exact hp.symm
      · exact hagree e he
  | pause _ next, h => exists_path (x := next) h

/-- If a processor table is remembered, it is the one that there is. -/
def Remembers (answer : (p : Probe) → Except Fault p.Answer) (s : Progress) : Prop :=
  ∀ table, s.processors = some table → answer .processors = .ok table

namespace Course

variable {s s' : Progress} {es : List Exchange}

theorem told_processors {table : List Processor} (h : processors.Reads s es table s')
    (hes : ∀ e ∈ es, e.Agrees answer) (hs : Remembers answer s) :
    answer .processors = .ok table ∧ Remembers answer s' := by
  obtain ⟨hs', -, ⟨-, rfl⟩ | ⟨hp, -⟩⟩ := reads_processors h
  · have htable : answer .processors = .ok table := (hes _ List.mem_cons_self).symm
    exact ⟨htable, fun _ ht => by rwa [← Option.some.inj (hs'.symm.trans ht)]⟩
  · have htable := hs table hp
    exact ⟨htable, fun _ ht => by rwa [← Option.some.inj (hs'.symm.trans ht)]⟩

theorem told_named {p p' : Profile} (h : (named p).Reads s es p' s')
    (hes : ∀ e ∈ es, e.Agrees answer) (hs : Remembers answer s) :
    (p.cpuCores = 0 ∧ p' = p
      ∨ p.cpuCores ≠ 0 ∧ ∃ table, answer .processors = .ok table ∧ p' = p.nameAfter table)
      ∧ Remembers answer s' := by
  rcases reads_named h with ⟨hcores, rfl, -, rfl⟩ | ⟨hcores, table, htable, rfl⟩
  · exact ⟨.inl ⟨hcores, rfl⟩, hs⟩
  · obtain ⟨htable, hs'⟩ := told_processors htable hes hs
    exact ⟨.inr ⟨hcores, table, htable, rfl⟩, hs'⟩

end Course

/-- The caches of node `i` with the counts of `p` are the node's own or, for a CPU node that has
none, those of its processors. -/
def CachesTold (answer : (p : Probe) → Except Fault p.Answer) (i : UInt32) (p : Profile)
    (l : List Cache) : Prop :=
  if p.caches ≠ 0 then
    l.length = p.caches.toNat ∧ ReadFrom (fun k => answer (.cache i k)) l
  else if p.isGpu then l = []
  else ∃ table, answer .processors = .ok table ∧ answer (.processorCaches i table) = .ok l

theorem Course.told_caches {i : UInt32} {p : Profile} {l : List Cache} {s s' : Progress}
    {es : List Exchange} (h : (caches i p).Reads s es l s') (hes : ∀ e ∈ es, e.Agrees answer)
    (hs : Remembers answer s) : CachesTold answer i p l ∧ Remembers answer s' := by
  unfold CachesTold
  rcases reads_caches h with ⟨hp, hlen, rfl, rfl⟩ | ⟨hp, hgpu, rfl, -, rfl⟩ |
    ⟨hp, hgpu, es', table, htable, rfl⟩
  · rw [if_pos hp]
    exact ⟨⟨hlen, readFrom_of_agrees (fun k => .told (.cache i k)) (fun _ _ h => h.symm) hes⟩, hs⟩
  · rw [if_neg (not_not.2 hp), if_pos hgpu]
    exact ⟨rfl, hs⟩
  · obtain ⟨htable, hs'⟩ := told_processors htable
      (fun e he => hes e (List.mem_append_left _ he)) hs
    rw [if_neg (not_not.2 hp), if_neg (by rw [hgpu]; exact Bool.false_ne_true)]
    exact ⟨⟨table, htable, (hes (.told (.processorCaches i table) l) (by simp)).symm⟩, hs'⟩

namespace NodeReading

/-- The reading is made from the answers about node `i`. -/
structure Told (answer : (p : Probe) → Except Fault p.Answer) (i : UInt32) (r : NodeReading) :
    Prop where
  report : answer (.report i) = .ok r.report
  profile : r.report.profile.cpuCores = 0 ∧ r.profile = r.report.profile
    ∨ r.report.profile.cpuCores ≠ 0 ∧ ∃ table, answer .processors = .ok table
      ∧ r.profile = r.report.profile.nameAfter table
  banks_length : r.banks.length = r.report.profile.banks.toNat
  banks : ReadFrom (fun b => answer (.bank i b)) r.banks
  caches : CachesTold answer i r.profile r.caches
  standard : ReadFrom (fun l => answer (.link i l false)) r.standard
  peers : ReadFrom (fun l => answer (.link i l true)) r.peers

theorem Along.told {nodes i : UInt32} {s s' : Progress} {es : List Exchange} {r : NodeReading}
    (h : r.Along nodes i s es s') (hes : ∀ e ∈ es, e.Agrees answer) (hs : Remembers answer s) :
    r.Told answer i ∧ Remembers answer s' := by
  obtain ⟨es₁, es₂, s₁, s₂, hnamed, hcaches, hprocessors, -, rfl⟩ := h.exchanges
  obtain ⟨hprofile, hs₁⟩ := Course.told_named hnamed (fun e he => hes e (by simp [he])) hs
  obtain ⟨hcache, hs₂⟩ := Course.told_caches hcaches (fun e he => hes e (by simp [he])) hs₁
  refine ⟨⟨?_, hprofile, ?_, ?_, hcache, ?_, ?_⟩, fun t ht => hs₂ t (hprocessors ▸ ht)⟩
  · exact (hes (.told (.report i) r.report) (by simp)).symm
  · rw [h.banks_length, h.profile_counts.1]
  · exact readFrom_of_agrees (fun b => .told (.bank i b)) (fun _ _ h => h.symm) fun e he =>
      hes e (List.mem_append_left _ (List.mem_append_left _ (List.mem_append_right _ he)))
  · exact readFrom_of_agrees (fun l => .told (.link i l false)) (fun _ _ h => h.symm)
      fun e he => hes e (List.mem_append_right _ (List.mem_append_left _ he))
  · exact readFrom_of_agrees (fun l => .told (.link i l true)) (fun _ _ h => h.symm)
      fun e he => hes e (List.mem_append_right _ (List.mem_append_right _ he))

end NodeReading

theorem Survey.exists_told {number : UInt32} {S : Snapshot} {tally : Tally}
    (h : (attempt number).eval answer = .ok (some (S, tally))) :
    ∃ (r : Reading) (s : Progress) (es : List Exchange), r.Along es s
      ∧ answer .generation = .ok S.generation ∧ answer .platform = .ok r.platform
      ∧ S.platform = r.platform ∧ S.nodes = (r.outcome s.tally).1
      ∧ tally = { (r.outcome s.tally).2 with attempts := number }
      ∧ ∀ {k : Nat} {rn : NodeReading}, r.nodes[k]? = some rn → rn.Told answer (.ofNat k)
        ∧ ∃ s₁ es₁ s₂, rn.Along r.platform.nodes (.ofNat k) s₁ es₁ s₂ := by
  obtain ⟨es, hes, hagree⟩ := exists_path h
  obtain ⟨r, s, es', hr, rfl, hplatform, hnodes, htally⟩ := reads_attempt hes
  obtain ⟨es'', rfl, hchain⟩ := hr.exchanges
  refine ⟨r, s, _, hr, (hagree (.told .generation S.generation) (by simp)).symm,
    (hagree (.told .platform r.platform) (by simp)).symm, hplatform, hnodes, htally,
    fun {k rn} hk => ?_⟩
  -- from node to node only the remembered table is handed on
  obtain ⟨s₁, es₁, s₂, hrn, hsub, hs₁⟩ := hchain.exists_along (P := Remembers answer)
    (Q := fun e => e.Agrees answer) (fun hrn hes hs => (hrn.told hes hs).2)
    (fun e he => hagree e (by simp [he])) (fun _ h => by cases h) hk
  rw [Nat.zero_add] at hrn
  exact ⟨(hrn.told (fun e he => hagree e (by simp [hsub e he])) hs₁).1, s₁, es₁, s₂, hrn⟩

/-- Each node of the snapshot extends what was told about its index. -/
theorem Survey.exists_told_node {number : UInt32} {S : Snapshot} {tally : Tally}
    (h : (attempt number).eval answer = .ok (some (S, tally))) {k : Nat} {n : Node}
    (hn : S.nodes[k]? = some n) : ∃ rn : NodeReading, rn.Told answer (.ofNat k)
      ∧ n.Extends rn.node ∧ ∃ s es s', rn.Along S.platform.nodes (.ofNat k) s es s' := by
  obtain ⟨r, s, _, -, -, -, hplatform, hnodes, -, htold⟩ := exists_told h
  rw [hnodes] at hn
  obtain ⟨rn, hrn, hext⟩ := Reading.exists_extends_at hn
  obtain ⟨htold, hal⟩ := htold hrn
  exact ⟨rn, htold, hext, hplatform ▸ hal⟩

theorem Survey.length_nodes {number : UInt32} {S : Snapshot} {tally : Tally}
    (h : (attempt number).eval answer = .ok (some (S, tally))) :
    S.nodes.length = S.platform.nodes.toNat := by
  obtain ⟨r, _, _, hr, -, -, hplatform, hnodes, -⟩ := exists_told h
  exact (hr.surveyed_snapshot hplatform hnodes).count

end Answer

end ComputeTopology
