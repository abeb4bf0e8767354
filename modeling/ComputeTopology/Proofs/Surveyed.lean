import ComputeTopology.Proofs.Completion
import ComputeTopology.Proofs.Reading

/-!
# What a survey makes of a node

Whatever a machine answers, a node that a survey has made counts its own banks and caches, and its
direct links come in the order of the two tables and are no more than there are other nodes
(`Node.Surveyed`). Indirect links do not change that (`Node.Surveyed.extends`). A snapshot that an
attempt finds is the reading of that attempt, completed or not (`Reading.outcome_extends`).
-/

namespace ComputeTopology

namespace Node

/-- The links that the machine reported, in their order. -/
def reported (n : Node) : List Link :=
  n.links.filter (·.isDirect)

/-- The node is one that a survey made, on a platform where there is room for `capacity` links. -/
structure Surveyed (capacity : Nat) (n : Node) : Prop where
  banks : n.banks.length = n.profile.banks.toNat
  caches : n.profile.caches = .ofNat n.caches.length
  order : n.reported = n.reported.filter (! ·.peer) ++ n.reported.filter (·.peer)
  room : n.reported.length ≤ capacity

theorem Surveyed.extends {capacity : Nat} {n' n : Node} (h : n.Surveyed capacity)
    (hext : n'.Extends n) : n'.Surveyed capacity := by
  have hreported : n'.reported = n.reported := hext.filter_direct
  obtain ⟨routes, -, rfl⟩ := hext
  exact ⟨h.banks, h.caches, by rw [hreported]; exact h.order, by rw [hreported]; exact h.room⟩

end Node

/-- Links from one table are told from those of the other by their mark. -/
theorem filter_found (q : Bool → Bool) (peer : Bool) (answers : List (Option Link)) :
    (found peer answers).filter (fun l => q l.peer) = if q peer then found peer answers else [] := by
  split_ifs with h
  · exact List.filter_eq_self.2 fun l hl => by rw [(of_mem_found hl).2, h]
  · exact List.filter_eq_nil_iff.2 fun l hl => by rwa [(of_mem_found hl).2]

namespace NodeReading

theorem reported_node (r : NodeReading) : r.node.reported = r.links := by
  refine List.filter_eq_self.2 fun l hl => ?_
  simp [Link.isDirect, kind_of_mem_found hl]

theorem direct_node (r : NodeReading) : r.node.direct = r.node :=
  Node.direct_of_isDirect (fun _ hl => kind_of_mem_found hl) rfl

theorem Along.length_links_le {nodes i : UInt32} {s s' : Progress} {es : List Exchange}
    {r : NodeReading} (h : r.Along nodes i s es s') : r.links.length ≤ nodes.toNat - 1 := by
  have hstandard := h.standard_filled.held_le
  have hpeers := h.peers_filled.held_le
  rw [links, List.length_append, length_found true]
  rw [← length_found false, Nat.zero_add, Nat.max_eq_left (Nat.zero_le _)] at hstandard
  rwa [Nat.max_eq_left hstandard] at hpeers

theorem Along.surveyed {nodes i : UInt32} {s s' : Progress} {es : List Exchange}
    {r : NodeReading} (h : r.Along nodes i s es s') : r.node.Surveyed (nodes.toNat - 1) where
  banks := h.banks_length
  caches := rfl
  order := by
    have hnot := filter_found (! ·)
    have hself := filter_found id
    simp only [id] at hself
    rw [reported_node, links, List.filter_append, List.filter_append, hnot, hnot, hself, hself]
    simp
  room := by
    rw [reported_node]
    exact h.length_links_le

end NodeReading

/-- A node says here that it has peer links. -/
def Exchange.saysPeers : Exchange → Bool
  | ⟨.report _, .ok r⟩ => r.peersPresent
  | _ => false

namespace Course

variable {s s' : Progress} {es : List Exchange}

theorem any_saysPeers_processors {table : List Processor}
    (h : processors.Reads s es table s') : es.any (·.saysPeers) = false := by
  obtain ⟨-, -, ⟨-, rfl⟩ | ⟨-, rfl⟩⟩ := reads_processors h <;> rfl

theorem any_saysPeers_named {p p' : Profile} (h : (named p).Reads s es p' s') :
    es.any (·.saysPeers) = false := by
  rcases reads_named h with ⟨-, -, rfl, -⟩ | ⟨-, table, htable, -⟩
  · rfl
  · exact any_saysPeers_processors htable

theorem any_saysPeers_caches {i : UInt32} {p : Profile} {l : List Cache}
    (h : (caches i p).Reads s es l s') : es.any (·.saysPeers) = false := by
  rcases reads_caches h with ⟨-, -, -, rfl⟩ | ⟨-, -, -, rfl, -⟩ | ⟨-, -, es', table, htable, rfl⟩
  · simp [Exchange.saysPeers, Exchange.told]
  · rfl
  · rw [List.any_append, any_saysPeers_processors htable]
    rfl

end Course

namespace NodeReading

variable {nodes : UInt32} {s s' : Progress} {es : List Exchange}

theorem Along.any_saysPeers {i : UInt32} {r : NodeReading} (h : r.Along nodes i s es s') :
    es.any (·.saysPeers) = r.report.peersPresent := by
  obtain ⟨es₁, es₂, s₁, s₂, hnamed, hcaches, -, -, rfl⟩ := h.exchanges
  have hlinks : (r.linkExchanges i).any (·.saysPeers) = false := by
    simp [linkExchanges, Exchange.saysPeers, Exchange.told]
  have hbanks : (r.banks.zipIdx.map fun x => Exchange.told (.bank i (.ofNat x.2)) x.1).any
      (·.saysPeers) = false := by
    simp [Exchange.saysPeers, Exchange.told]
  simp only [List.any_append, List.any_cons, Course.any_saysPeers_named hnamed,
    Course.any_saysPeers_caches hcaches, hlinks, hbanks, Bool.or_false]
  rfl

theorem ChainAlong.any_saysPeers :
    ∀ {rs : List NodeReading} {index : Nat} {s : Progress} {es : List Exchange},
      ChainAlong nodes index s es rs s' →
        es.any (·.saysPeers) = rs.any (·.report.peersPresent)
  | [], _, _, _, ⟨hes, _⟩ => by rw [hes]; rfl
  | _ :: _, _, _, _, ⟨_, _, _, hr, hrs, hes⟩ => by
    rw [hes, List.any_append, hr.any_saysPeers, hrs.any_saysPeers, List.any_cons]

end NodeReading

namespace Reading

variable {es : List Exchange} {r : Reading} {s : Progress}

theorem Along.any_saysPeers (h : r.Along es s) : es.any (·.saysPeers) = r.peersPresent := by
  obtain ⟨es', rfl, hchain⟩ := h.exchanges
  rw [List.any_cons, hchain.any_saysPeers]
  rfl

theorem Along.exists_along (h : r.Along es s) {k : Nat} {rn : NodeReading}
    (hk : r.nodes[k]? = some rn) : ∃ s₁ es₁ s₂,
      rn.Along r.platform.nodes (.ofNat k) s₁ es₁ s₂ ∧ ∀ e ∈ es₁, e ∈ es := by
  obtain ⟨es', rfl, hchain⟩ := h.exchanges
  obtain ⟨s₁, es₁, s₂, hrn, hsub, -⟩ := hchain.exists_along (P := fun _ => True)
    (Q := fun _ => True) (fun _ _ _ => trivial) (fun _ _ => trivial) trivial hk
  rw [Nat.zero_add] at hrn
  exact ⟨s₁, es₁, s₂, hrn, fun e he => List.mem_cons_of_mem _ (hsub e he)⟩

theorem Along.surveyed (h : r.Along es s) {rn : NodeReading} (hrn : rn ∈ r.nodes) :
    rn.node.Surveyed (r.platform.nodes.toNat - 1) := by
  obtain ⟨k, hk⟩ := List.getElem?_of_mem hrn
  obtain ⟨_, _, _, hrn, -⟩ := h.exists_along hk
  exact hrn.surveyed

theorem outcome_extends (r : Reading) (t : Tally) :
    NodesExtend (r.outcome t).1 (r.nodes.map (·.node)) := by
  unfold outcome
  split_ifs
  · exact .refl _
  · exact Route.complete_extends _ _

theorem map_direct_outcome (r : Reading) (t : Tally) :
    (r.outcome t).1.map (·.direct) = r.nodes.map (·.node) := by
  rw [(r.outcome_extends t).map_direct, List.map_map]
  exact List.map_congr_left fun rn _ => rn.direct_node

theorem length_outcome (r : Reading) (t : Tally) : (r.outcome t).1.length = r.nodes.length := by
  rw [(r.outcome_extends t).length_eq, List.length_map]

theorem exists_extends_at {t : Tally} {k : Nat} {n : Node} (hk : (r.outcome t).1[k]? = some n) :
    ∃ rn, r.nodes[k]? = some rn ∧ n.Extends rn.node := by
  have hlt := (List.getElem?_eq_some_iff.1 hk).1
  rw [length_outcome] at hlt
  have hrn : (r.nodes.map (·.node))[k]? = some r.nodes[k].node := by simp [hlt]
  exact ⟨r.nodes[k], List.getElem?_eq_getElem hlt, (r.outcome_extends t).extend hk hrn⟩

theorem exists_extends {t : Tally} {n : Node} (hn : n ∈ (r.outcome t).1) :
    ∃ (k : Nat) (rn : NodeReading), r.nodes[k]? = some rn ∧ n.Extends rn.node := by
  obtain ⟨k, hk⟩ := List.getElem?_of_mem hn
  exact ⟨k, exists_extends_at hk⟩

end Reading

/-- The snapshot is one that a survey found. -/
structure Snapshot.Surveyed (S : Snapshot) : Prop where
  count : S.nodes.length = S.platform.nodes.toNat
  nodes : ∀ m ∈ S.nodes, m.Surveyed (S.platform.nodes.toNat - 1)

theorem Reading.Along.surveyed_snapshot {es : List Exchange} {r : Reading} {s : Progress}
    {S : Snapshot} (h : r.Along es s) (hplatform : S.platform = r.platform) {t : Tally}
    (hnodes : S.nodes = (r.outcome t).1) : S.Surveyed where
  count := by rw [hnodes, r.length_outcome, h.length_nodes, hplatform]
  nodes m hm := by
    rw [hnodes] at hm
    obtain ⟨k, rn, hrn, hext⟩ := exists_extends hm
    rw [hplatform]
    exact (h.surveyed (List.mem_of_getElem? hrn)).extends hext

end ComputeTopology
