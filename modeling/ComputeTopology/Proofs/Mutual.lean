import ComputeTopology.Proofs.Tidy

/-!
# Routes lead both ways

Where every link has a counterpart of the same fabric and weight, a walk can be taken backwards over
the counterparts of its hops (`Route.Mutual.walk_back`). It then is a walk of another shape: one from
a GPU to a CPU becomes one from the CPU to the GPU, with the other hop in the middle. The fabric stays
the same, as the links between a GPU and its host are near ones in both directions. So two nodes are
joined by routes in both directions, of one fabric and weight, or not at all
(`Route.complete_symmetric`).
-/

namespace ComputeTopology.Route

/-- A tidy node list on which every link has a counterpart and the CPU can reach memory of every
GPU. -/
structure Mutual (nodes : List Node) : Prop extends Tidy nodes where
  back : ∀ i j : Fin nodes.length, ∀ l ∈ (nodes.get i).links, l.target.toNat = j →
    ∃ k ∈ (nodes.get j).links, k.target.toNat = i ∧ k.fabric = l.fabric ∧ k.weight = l.weight
  frames : ∀ n ∈ nodes, n.isGpu = true → ∃ b ∈ n.banks, b.heap = .framePublic

variable {nodes : List Node} {source target : UInt32} {l : Link} {n m : Node}

namespace Tidy

theorem hop_of_mem (h : Tidy nodes) (hn : nodes[source.toNat]? = some n) (hl : l ∈ n.links) :
    Hop nodes source l.target l :=
  ⟨n, hn, (h.placed hn).first hl (h.direct n (List.mem_of_getElem? hn) l hl)⟩

theorem near_of_host (h : Tidy nodes) (hhost : Host nodes source target)
    (hhop : Hop nodes source target l) : Near l := by
  obtain ⟨n, k, hn, -, hk, rfl⟩ := hhost
  rw [hhop.unique (h.hop_of_mem hn hk.mem)]
  exact hk.prop

end Tidy

/-- Links of the same weights in the opposite order weigh the same. -/
theorem weightOf_back {hops hops' : List Link}
    (h : hops'.map (·.weight) = (hops.map (·.weight)).reverse) : weightOf hops' = weightOf hops := by
  have htoNat := congrArg (fun weights => (weights.map UInt32.toNat).sum) h
  simpa only [weightOf, List.map_reverse, List.sum_reverse, List.map_map, Function.comp_def]
    using htoNat

namespace Mutual

theorem hop_back (h : Mutual nodes) (hhop : Hop nodes source target l) :
    ∃ k, Hop nodes target source k ∧ k.fabric = l.fabric ∧ k.weight = l.weight := by
  obtain ⟨n, hn, hl⟩ := hhop
  obtain ⟨-, rfl⟩ := hl.prop
  have hi := (List.getElem?_eq_some_iff.1 hn).1
  have hj := (h.placed hn).target_lt l hl.mem
  obtain rfl : nodes.get ⟨source.toNat, hi⟩ = n :=
    Option.some.inj ((List.getElem?_eq_getElem hi).symm.trans hn)
  obtain ⟨k, hk, hsource, hf, hw⟩ := h.back ⟨_, hi⟩ ⟨_, hj⟩ l hl.mem rfl
  obtain rfl := UInt32.toNat_inj.1 hsource
  exact ⟨k, h.hop_of_mem (List.getElem?_eq_getElem hj) hk, hf, hw⟩

theorem walk_back (h : Mutual nodes) {hops : List Link} {f : Fabric}
    (hwalk : Walk nodes source target hops f) :
    ∃ hops', Walk nodes target source hops' f ∧ weightOf hops' = weightOf hops := by
  cases hwalk with
  | overSharedHost hs ht ha hb =>
    obtain ⟨a', ha', hfa, hwa⟩ := h.hop_back ha
    obtain ⟨b', hb', hfb, hwb⟩ := h.hop_back hb
    -- the middle hop is now that to the other GPU, a near link as well
    have hf := (hfa.trans (h.near_of_host hs ha).2.1).trans (h.near_of_host ht hb').2.1.symm
    rw [← hfb, ← hf]
    exact ⟨[b', a'], .overSharedHost ht hs hb' ha', weightOf_back (by simp [hwa, hwb])⟩
  | overHosts hs ht hne ha hb hc hqpi =>
    obtain ⟨a', ha', -, hwa⟩ := h.hop_back ha
    obtain ⟨b', hb', hfb, hwb⟩ := h.hop_back hb
    obtain ⟨c', hc', -, hwc⟩ := h.hop_back hc
    rw [← hfb, ← hwb] at hqpi
    rw [← hfb]
    exact ⟨[c', b', a'], .overHosts ht hs hne.symm hc' hb' ha' hqpi,
      weightOf_back (by simp [hwa, hwb, hwc])⟩
  | overSourceHost hs ht ha hb =>
    obtain ⟨a', ha', -, hwa⟩ := h.hop_back ha
    obtain ⟨b', hb', hfb, hwb⟩ := h.hop_back hb
    rw [← hfb]
    exact ⟨[b', a'], .overTargetHost ht hs hb' ha', weightOf_back (by simp [hwa, hwb])⟩
  | overTargetHost hs ht ha hb =>
    obtain ⟨a', ha', hfa, hwa⟩ := h.hop_back ha
    obtain ⟨b', hb', -, hwb⟩ := h.hop_back hb
    rw [← hfa]
    exact ⟨[b', a'], .overSourceHost ht hs hb' ha', weightOf_back (by simp [hwa, hwb])⟩

theorem joinable_back (h : Mutual nodes) (hn : n ∈ nodes) (hjoin : Joinable source target n m) :
    Joinable target source m n where
  ne := hjoin.ne.symm
  gpu := hjoin.gpu.symm
  hive := by
    rcases hjoin.hive with hzero | hne
    · rw [hzero]
      exact eq_or_ne _ 0
    · exact .inr hne.symm
  frame := h.frames n hn

theorem find?_back (h : Mutual nodes) {route : Fabric × UInt32}
    (hroute : find? nodes source target = some route) :
    find? nodes target source = some route := by
  obtain ⟨n, m, hops, hn, hm, hjoin, hwalk, hw⟩ := find?_eq_some_iff.1 hroute
  obtain ⟨hops', hwalk', hw'⟩ := h.walk_back hwalk
  exact find?_eq_some_iff.2 ⟨m, n, hops', hm, hn,
    h.joinable_back (List.mem_of_getElem? hn) hjoin, hwalk', hw.trans hw'.symm⟩

theorem candidate?_back (h : Mutual nodes) {f : Fabric} {w : UInt32}
    (hroute : candidate? nodes source target = some (Link.route source target f w)) :
    candidate? nodes target source = some (Link.route target source f w) := by
  obtain ⟨n, ⟨fabric, weight⟩, hn, hunlinked, hfind, hl⟩ := candidate?_eq_some_iff.1 hroute
  obtain ⟨rfl, rfl⟩ : f = fabric ∧ w = weight :=
    ⟨congrArg Link.fabric hl, congrArg Link.weight hl⟩
  obtain ⟨_, m, -, -, hm, -⟩ := find?_eq_some_iff.1 hfind
  refine candidate?_eq_some_iff.2 ⟨m, (f, w), hm, ?_, h.find?_back hfind, rfl⟩
  -- a link back would have a counterpart
  rintro k hk rfl
  obtain ⟨k', ⟨n', hn', hk'⟩, -⟩ := h.hop_back (h.hop_of_mem hm hk)
  obtain rfl : n = n' := Option.some.inj (hn.symm.trans hn')
  exact hunlinked k' hk'.mem hk'.prop.2

theorem joins_back (h : Mutual nodes) {tally : Tally} {i j : Nat} {f : Fabric} {w : UInt32}
    (hjoins : Joins (complete nodes tally).1 i j f w) :
    Joins (complete nodes tally).1 j i f w := by
  obtain ⟨hi, hj, hroute⟩ := (h.joins_complete_iff tally).1 hjoins
  exact (h.joins_complete_iff tally).2 ⟨hj, hi, h.candidate?_back hroute⟩

end Mutual

/-- There is one indirect link at most from one node to another. -/
theorem Tidy.joins_unique (h : Tidy nodes) {tally : Tally} {i j : Nat} {f f' : Fabric}
    {w w' : UInt32} (hjoins : Joins (complete nodes tally).1 i j f w)
    (hjoins' : Joins (complete nodes tally).1 i j f' w') : f = f' ∧ w = w' := by
  obtain ⟨-, -, hroute⟩ := (h.joins_complete_iff tally).1 hjoins
  obtain ⟨-, -, hroute'⟩ := (h.joins_complete_iff tally).1 hjoins'
  have hl := Option.some.inj (hroute.symm.trans hroute')
  exact ⟨congrArg Link.fabric hl, congrArg Link.weight hl⟩

/-- Two nodes are joined in both directions or not at all, and both links have the same fabric and
the same weight. -/
theorem complete_symmetric (h : Mutual nodes) (tally : Tally) (i j : Nat) :
    ((∃ f w, Joins (complete nodes tally).1 i j f w)
        ↔ ∃ f w, Joins (complete nodes tally).1 j i f w)
      ∧ ∀ f f' w w', Joins (complete nodes tally).1 i j f w →
        Joins (complete nodes tally).1 j i f' w' → f = f' ∧ w = w' := by
  refine ⟨⟨?_, ?_⟩, fun f f' w w' hij hji => h.joins_unique hij (h.joins_back hji)⟩
  · rintro ⟨f, w, hij⟩
    exact ⟨f, w, h.joins_back hij⟩
  · rintro ⟨f, w, hji⟩
    exact ⟨f, w, h.joins_back hji⟩

theorem mutual_sockets : Mutual sockets where
  toTidy := by decide
  back := by decide
  frames := by decide

theorem complete_symmetric_sockets : Mutual sockets
    ∧ Joins (complete sockets {}).1 2 1 .xgmi 41
    ∧ ((∃ f w, Joins (complete sockets {}).1 2 1 f w)
      ↔ ∃ f w, Joins (complete sockets {}).1 1 2 f w)
    ∧ ∀ f f' w w', Joins (complete sockets {}).1 2 1 f w →
      Joins (complete sockets {}).1 1 2 f' w' → f = f' ∧ w = w' := by
  have hjoins : Joins (complete sockets {}).1 2 1 .xgmi 41 :=
    (mutual_sockets.joins_complete_iff {}).2 ⟨by decide, by decide, by decide +kernel⟩
  exact ⟨mutual_sockets, hjoins, complete_symmetric mutual_sockets {} 2 1⟩

end ComputeTopology.Route
