import ComputeTopology.Proofs.Told

/-!
# What a survey finds in a capture

A reading of a capture holds the capture's own tables, as far as they were read (`Capture.Shown`).
The names come from the capture's processors.
-/

namespace ComputeTopology

namespace Capture

variable {c : Capture} {nodes i : UInt32} {s s' : Progress} {es : List Exchange}

theorem entry_eq_ok {α : Type} {node i : UInt32} {kind : String} {table : List α} {a : α} :
    entry node kind table i = .ok a ↔ table[i.toNat]? = some a := by
  unfold entry
  split <;> rename_i h <;> simp [h]

/-- What the capture answers of one of a node's tables is in the table. -/
theorem mem_table {α : Type} (table : CapturedNode → List α) {kind : String} {n : CapturedNode}
    (hn : c.nodes[i.toNat]? = some n) (k : UInt32) (a : α)
    (h : (do entry i kind (table (← c.node i)) k) = .ok a) : (table n)[k.toNat]? = some a := by
  rw [node_eq_ok.2 hn] at h
  exact entry_eq_ok.1 h

/-- The reading `r` holds what the capture `c` has on its node `n`. -/
structure Shown (c : Capture) (n : CapturedNode) (r : NodeReading) : Prop where
  report : r.report = n.report
  profile : r.profile
    = if n.profile.cpuCores = 0 then n.report.profile else n.report.profile.nameAfter c.processors
  banks : r.banks = n.banks.take r.banks.length
  caches : n.report.profile.caches ≠ 0 ∧ r.caches.length = n.report.profile.caches.toNat
      ∧ r.caches = n.caches.take r.caches.length
    ∨ n.report.profile.caches = 0 ∧ r.caches = if n.profile.isGpu then [] else n.processorCaches
  standard : r.standard = n.links.take r.standard.length
  peers : r.peers = n.peerLinks.take r.peers.length

theorem caches_of_told {n : CapturedNode} {p : Profile} {l : List Cache}
    (h : CachesTold c.answer i p l) (hn : c.nodes[i.toNat]? = some n) :
    p.caches ≠ 0 ∧ l.length = p.caches.toNat ∧ l = n.caches.take l.length
      ∨ p.caches = 0 ∧ l = if p.isGpu then [] else n.processorCaches := by
  unfold CachesTold at h
  split_ifs at h with hp hgpu
  · obtain ⟨hlen, hread⟩ := h
    exact .inl ⟨hp, hlen, hread.eq_take (hlen ▸ Nat.le_of_lt p.caches.toNat_lt_size)
      fun k a _ => mem_table (·.caches) hn k a⟩
  · exact .inr ⟨not_not.1 hp, by rw [h, if_pos hgpu]⟩
  · obtain ⟨table, -, hl⟩ := h
    have hanswer : c.answer (.processorCaches i table) = .ok n.processorCaches := by
      rw [answer, node_eq_ok.2 hn]
      rfl
    exact .inr ⟨not_not.1 hp, by rw [if_neg hgpu]; exact Except.ok.inj (hl.symm.trans hanswer)⟩

theorem shown_of_told {r : NodeReading} (h : r.Told c.answer i) (hr : r.Along nodes i s es s') :
    ∃ n, c.nodes[i.toNat]? = some n ∧ c.Shown n r := by
  obtain ⟨n, hn, hreport⟩ := exists_of_answer_report h.report
  have hcaches := caches_of_told h.caches hn
  have hcores : r.report.profile.cpuCores = n.profile.cpuCores := congrArg (·.profile.cpuCores) hreport
  have hgpu : r.profile.isGpu = n.profile.isGpu := by
    obtain ⟨_, _, _, _, hnamed, -⟩ := hr.exchanges
    simp only [Profile.isGpu, (Course.reads_named_counts hnamed).2.2.2, hreport]
    rfl
  rw [hr.profile_counts.2.1, hreport, hgpu] at hcaches
  refine ⟨n, hn, hreport, ?_, ?_, hcaches, ?_, ?_⟩
  · rcases h.profile with ⟨hzero, hprofile⟩ | ⟨hzero, table, htable, hprofile⟩
    · rw [if_pos (hcores.symm.trans hzero), hprofile, hreport]
    · obtain rfl : c.processors = table := Except.ok.inj htable
      rw [if_neg fun h0 => hzero (hcores.trans h0), hprofile, hreport]
  · exact h.banks.eq_take (h.banks_length ▸ Nat.le_of_lt (UInt32.toNat_lt_size _))
      fun k a _ => mem_table (·.banks) hn k a
  · refine h.standard.eq_take (Nat.le_trans hr.standard_filled.length_le ?_)
      fun k a _ => mem_table (·.links) hn k a
    exact Nat.le_trans (Nat.sub_le _ _) (Nat.le_of_lt (UInt32.toNat_lt_size _))
  · exact h.peers.eq_take (Nat.le_trans hr.peers_filled.length_le
      (Nat.le_of_lt (UInt32.toNat_lt_size _))) fun k a _ => mem_table (·.peerLinks) hn k a

/-- What an attempt at a capture finds is a reading of the capture. -/
theorem exists_reading {number : UInt32} {S : Snapshot} {tally : Tally}
    (h : (Survey.attempt number).eval c.answer = .ok (some (S, tally))) :
    ∃ (r : Reading) (s : Progress) (es : List Exchange), r.Along es s
      ∧ S.generation = c.generation ∧ S.platform = r.platform
      ∧ S.nodes = (r.outcome s.tally).1 ∧ tally = { (r.outcome s.tally).2 with attempts := number }
      ∧ r.platform = { c.platform with nodes := .ofNat c.nodes.length }
      ∧ ∀ {k : Nat} {rn : NodeReading}, r.nodes[k]? = some rn → ∃ n s₁ es₁ s₂,
        c.nodes[k]? = some n ∧ c.Shown n rn ∧ rn.Along r.platform.nodes (.ofNat k) s₁ es₁ s₂ := by
  obtain ⟨r, s, es, hr, hgen, hpl, hplatform, hnodes, htally, htold⟩ := Survey.exists_told h
  refine ⟨r, s, es, hr, (Except.ok.inj hgen).symm, hplatform, hnodes, htally,
    (Except.ok.inj hpl).symm, fun {k rn} hk => ?_⟩
  obtain ⟨hrn, s₁, es₁, s₂, hal⟩ := htold hk
  obtain ⟨n, hn, hshown⟩ := shown_of_told hrn hal
  have hlt : k < UInt32.size := by
    have h₁ := (List.getElem?_eq_some_iff.1 hk).1
    rw [hr.length_nodes] at h₁
    exact Nat.lt_trans h₁ (UInt32.toNat_lt_size _)
  rw [UInt32.toNat_ofNat_of_lt' hlt] at hn
  exact ⟨n, s₁, es₁, s₂, hn, hshown, hal⟩

end Capture

end ComputeTopology
