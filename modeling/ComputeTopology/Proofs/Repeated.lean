import ComputeTopology.Proofs.Placed

/-!
# Entries that lead to the same node

A survey takes over the supported entries of a node in their order, as many as there are other nodes,
without asking where they lead. So an entry that leads where an earlier one leads takes a place as
well. A node is linked once to every node that its entries name (`LinkedOnce`) exactly if no two
entries among those taken over lead to the same node and none of the entries left out leads to
another node that they do not reach (`Capture.take_linkedOnce_iff`).
-/

namespace ComputeTopology

/-- From node `i` of `count` nodes no two links lead to the same node, and wherever an entry leads to
another node a link does too. -/
structure LinkedOnce (count i : Nat) (entries links : List Link) : Prop where
  distinct : (links.map (·.target)).Nodup
  reached : ∀ l ∈ entries, l.target.toNat < count → l.target.toNat ≠ i →
    ∃ k ∈ links, k.target = l.target

/-- Routes do not make up for the entries that are left out: where entries are left out, there is
no place for a route. -/
theorem linkedOnce_take_iff {count i capacity : Nat} {entries routes : List Link}
    (hpairwise : routes.Pairwise fun k l => k.target < l.target)
    (hunlinked : ∀ l ∈ routes, ∀ k ∈ entries.take capacity, k.target ≠ l.target) :
    LinkedOnce count i entries (entries.take capacity
        ++ routes.take (capacity - (entries.take capacity).length))
      ↔ ((entries.take capacity).map (·.target)).Nodup
        ∧ ∀ l ∈ entries.drop capacity, l.target.toNat < count → l.target.toNat ≠ i →
          ∃ k ∈ entries.take capacity, k.target = l.target := by
  constructor
  · rintro ⟨hdistinct, hreached⟩
    rw [List.map_append, List.nodup_append] at hdistinct
    refine ⟨hdistinct.1, fun l hl hlt hne => ?_⟩
    have hfull : capacity - (entries.take capacity).length = 0 := by
      have := List.length_pos_of_mem hl
      rw [List.length_drop] at this
      rw [List.length_take]
      omega
    have hlink := hreached l (List.mem_of_mem_drop hl) hlt hne
    rwa [hfull, List.take_zero, List.append_nil] at hlink
  · rintro ⟨hdistinct, hreached⟩
    refine ⟨nodup_append_routes hdistinct (hpairwise.sublist (List.take_sublist _ _))
      fun l hl => hunlinked l (List.mem_of_mem_take hl), fun l hl hlt hne => ?_⟩
    rw [← List.take_append_drop capacity entries] at hl
    rcases List.mem_append.1 hl with hl | hl
    · exact ⟨l, List.mem_append_left _ hl, rfl⟩
    · obtain ⟨k, hk, htarget⟩ := hreached l hl hlt hne
      exact ⟨k, List.mem_append_left _ hk, htarget⟩

namespace Capture

variable {c : Capture} {r : Reading} {es : List Exchange} {s : Progress} {S : Snapshot}

/-- A node of the snapshot has the first entries of the captured one and the routes for which they
leave room. -/
theorem Read.exists_taken (h : c.Read r es s) (hnodes : c.nodes.length < UInt32.size)
    (hlinks : ∀ n ∈ c.nodes, n.links.length + n.peerLinks.length < UInt32.size)
    (hS : S.nodes = (r.outcome s.tally).1) {i : Nat} {n : CapturedNode} {n' : Node}
    (hn : c.nodes[i]? = some n) (hn' : S.nodes[i]? = some n') :
    n'.links = n.supported.take c.capacity
        ++ (r.routes i).take (c.capacity - (n.supported.take c.capacity).length)
      ∧ ∀ l ∈ r.routes i, ∀ k ∈ n.supported.take c.capacity, k.target ≠ l.target := by
  rw [hS] at hn'
  obtain ⟨rn, hrn, rfl⟩ := h.along.exists_fill hn'
  obtain ⟨m, _, _, _, hm, hs, hal⟩ := h.shown hrn
  obtain rfl : n = m := Option.some.inj (hn.symm.trans hm)
  have hcount : r.platform.nodes.toNat = c.nodes.length := by
    rw [h.platform]
    exact UInt32.toNat_ofNat_of_lt' hnodes
  have hread : rn.links = n.supported.take c.capacity := by
    rw [hs.links_eq (hlinks n (List.mem_of_getElem? hn)) hal, hcount]
    rfl
  have hnode : (r.nodes.map (·.node))[i]? = some rn.node := by
    rw [List.getElem?_map, hrn]
    rfl
  rw [← hread]
  refine ⟨?_, fun l hl k hk => ?_⟩
  · simp only [Route.fill, h.along.length_nodes, hcount]
    rfl
  · exact (h.along.of_mem_routes (List.getElem?_eq_some_iff.1 hrn).1 hl).unlinked _ hnode k hk

/-- A survey of a capture links a node once to every other node that its entries lead to if and only
if no two of its first entries, as many as there are other nodes, lead to the same node, and every
entry behind them that leads to another node leads where one of them does. -/
theorem take_linkedOnce_iff (hnodes : c.nodes.length < UInt32.size)
    (hlinks : ∀ n ∈ c.nodes, n.links.length + n.peerLinks.length < UInt32.size) (p : Publisher) :
    ∃ S tally, p.take machine c = ((.ok (), p.publish S tally), c)
      ∧ S.nodes.length = c.nodes.length
      ∧ ∀ {i : Nat} {n : CapturedNode} {n' : Node}, c.nodes[i]? = some n → S.nodes[i]? = some n' →
        (LinkedOnce c.nodes.length i n.supported n'.links
          ↔ ((n.supported.take (c.nodes.length - 1)).map (·.target)).Nodup
            ∧ ∀ l ∈ n.supported.drop (c.nodes.length - 1), l.target.toNat < c.nodes.length →
              l.target.toNat ≠ i →
              ∃ k ∈ n.supported.take (c.nodes.length - 1), k.target = l.target) := by
  obtain ⟨S, tally, r, es, s, htake, hread, hS⟩ := exists_read c p
  refine ⟨S, tally, htake, ?_, fun {i n n'} hn hn' => ?_⟩
  · rw [hS, r.length_outcome, hread.along.length_nodes, hread.platform]
    exact UInt32.toNat_ofNat_of_lt' hnodes
  · obtain ⟨htaken, hunlinked⟩ := hread.exists_taken hnodes hlinks hS hn hn'
    rw [htaken]
    exact linkedOnce_take_iff (hread.along.pairwise_routes i) hunlinked

/-- A host and two GPUs. The host has the entries `ends`. -/
def hostAndGpus (ends : List UInt32) : Capture where
  nodes := [
    { CapturedNode.cpu 4 with
      links := ends.map fun i => some (CapturedNode.directLink i .pciExpress 20) },
    { CapturedNode.gpu 7 with links := [some (CapturedNode.directLink 0 .pciExpress 20)] },
    { CapturedNode.gpu 8 with links := [some (CapturedNode.directLink 0 .pciExpress 20)] }]

/-- The last entry of the host leads where the first one does, behind one to the other GPU. -/
theorem take_linkedOnce_iff_lastRepeated :
    let c := hostAndGpus [1, 2, 1]
    c.nodes.length < UInt32.size
      ∧ (∀ n ∈ c.nodes, n.links.length + n.peerLinks.length < UInt32.size)
      ∧ ∃ S tally, ({} : Publisher).take machine c = ((.ok (), ({} : Publisher).publish S tally), c)
        ∧ S.nodes.length = c.nodes.length
        ∧ ∀ {i : Nat} {n : CapturedNode} {n' : Node}, c.nodes[i]? = some n →
          S.nodes[i]? = some n' → (LinkedOnce c.nodes.length i n.supported n'.links
            ↔ ((n.supported.take (c.nodes.length - 1)).map (·.target)).Nodup
              ∧ ∀ l ∈ n.supported.drop (c.nodes.length - 1), l.target.toNat < c.nodes.length →
                l.target.toNat ≠ i →
                ∃ k ∈ n.supported.take (c.nodes.length - 1), k.target = l.target) :=
  ⟨by decide, by decide, take_linkedOnce_iff (by decide) (by decide) {}⟩

/-- The second entry of the host leads where the first one does. It takes the place of the third
one, and no link leads to the other GPU. -/
theorem hostAndGpus_not_linkedOnce :
    let c := hostAndGpus [1, 1, 2]
    ∃ S tally, ({} : Publisher).take machine c = ((.ok (), ({} : Publisher).publish S tally), c)
      ∧ ∃ n n', c.nodes[0]? = some n ∧ S.nodes[0]? = some n'
        ∧ n.supported.map (·.target) = [1, 1, 2] ∧ n'.links.map (·.target) = [1, 1]
        ∧ ¬ LinkedOnce c.nodes.length 0 n.supported n'.links := by
  intro c
  have key : ((Survey.attempt 1).eval c.answer).toOption.join.map
      (fun x => x.1.nodes.map (·.links.map (·.target))) = some [[1, 1], [0], [0]] := by
    decide +kernel
  obtain ⟨S, tally, heval⟩ := c.exists_attempt 1
  rw [heval] at key
  have htargets : S.nodes.map (·.links.map (·.target)) = [[1, 1], [0], [0]] := by
    simpa [Except.toOption] using key
  have hfirst := congrArg (·[0]?) htargets
  rw [List.getElem?_map] at hfirst
  obtain ⟨n', hn', hlinks⟩ := Option.map_eq_some_iff.1 hfirst
  refine ⟨S, tally, take_machine heval {}, _, n', rfl, hn', by decide, hlinks, fun h => ?_⟩
  have hdistinct := h.distinct
  rw [hlinks] at hdistinct
  exact absurd hdistinct (by decide)

end Capture

end ComputeTopology
