import ComputeTopology.Proofs.AtOnce
import ComputeTopology.Proofs.Placed

/-!
# What a route leads over

The host of a GPU is whatever its first near PCI Express link leads to. Between CPU nodes that is
a CPU node, but where GPUs are joined by such links it is another GPU. So an indirect link of a
snapshot stands for a walk over the hosts of its ends (`Reading.Along.exists_walk`), and this walk
is one over CPU nodes exactly if those hosts are CPU nodes (`Route.Walk.overCpus_iff`).
-/

namespace ComputeTopology

namespace Route

variable {nodes : List Node} {source target : UInt32} {l : Link} {hops : List Link} {f : Fabric}

def IsCpu (nodes : List Node) (i : UInt32) : Prop :=
  ∃ n, nodes[i.toNat]? = some n ∧ n.isGpu = false

/-- The links lead from `source` to `target` one after the other, each of them direct and all
nodes in between CPU nodes. -/
inductive CpuTrail (nodes : List Node) (target : UInt32) : UInt32 → List Link → Prop
  | last {source : UInt32} {n : Node} {l : Link} (node : nodes[source.toNat]? = some n)
    (mem : l ∈ n.links) (direct : l.kind = .direct) (ends : l.target = target) :
    CpuTrail nodes target source [l]
  | step {source : UInt32} {n : Node} {l : Link} {rest : List Link}
    (node : nodes[source.toNat]? = some n) (mem : l ∈ n.links) (direct : l.kind = .direct)
    (cpu : IsCpu nodes l.target) (trail : CpuTrail nodes target l.target rest) :
    CpuTrail nodes target source (l :: rest)

/-- The fabric is that of the middle one of three hops, or that of one of two. -/
def MiddleFabric : List Link → Fabric → Prop
  | [a, b], f => f = a.fabric ∨ f = b.fabric
  | [_, b, _], f => f = b.fabric
  | _, _ => False

/-- The fabric and the weight of the link are those of a walk of two or three hops over CPU nodes.
-/
structure OverCpus (nodes : List Node) (source : UInt32) (l : Link) (hops : List Link) : Prop where
  trail : CpuTrail nodes l.target source hops
  fabric : MiddleFabric hops l.fabric
  weight : l.weight.toNat = weightOf hops

/-- The hosts of both ends, as far as these have one, are CPU nodes. -/
def CpuHosts (nodes : List Node) (source target : UInt32) : Prop :=
  ∀ h, Host nodes source h ∨ Host nodes target h → IsCpu nodes h

theorem Hop.trail_last (h : Hop nodes source target l) : CpuTrail nodes target source [l] := by
  obtain ⟨n, hn, hfirst⟩ := h
  exact .last hn hfirst.mem hfirst.prop.1 hfirst.prop.2

theorem Hop.trail_cons_iff {via : UInt32} {k : Link} (h : Hop nodes source via l) :
    CpuTrail nodes target source (l :: k :: hops)
      ↔ IsCpu nodes via ∧ CpuTrail nodes target via (k :: hops) := by
  obtain ⟨n, hn, hfirst⟩ := h
  obtain ⟨hdirect, rfl⟩ := hfirst.prop
  constructor
  · intro htrail
    cases htrail with
    | step _ _ _ hcpu htrail => exact ⟨hcpu, htrail⟩
  · rintro ⟨hcpu, htrail⟩
    exact .step hn hfirst.mem hdirect hcpu htrail

/-- The walk leads over CPU nodes exactly if the hosts of its ends are CPU nodes. -/
theorem Walk.trail_iff (h : Walk nodes source target hops f) :
    CpuTrail nodes target source hops ↔ CpuHosts nodes source target := by
  cases h with
  | overSharedHost hs ht ha hb =>
    rw [ha.trail_cons_iff, and_iff_left hb.trail_last]
    refine ⟨fun hcpu h hh => ?_, fun hcpu => hcpu _ (.inl hs)⟩
    rcases hh with hh | hh
    · rwa [hh.unique hs]
    · rwa [hh.unique ht]
  | overHosts hs ht _ ha hb hc =>
    rw [ha.trail_cons_iff, hb.trail_cons_iff, and_iff_left hc.trail_last]
    refine ⟨fun hcpu h hh => ?_, fun hcpu => ⟨hcpu _ (.inl hs), hcpu _ (.inr ht)⟩⟩
    rcases hh with hh | hh
    · rw [hh.unique hs]
      exact hcpu.1
    · rw [hh.unique ht]
      exact hcpu.2
  | overSourceHost hs ht ha hb =>
    rw [ha.trail_cons_iff, and_iff_left hb.trail_last]
    refine ⟨fun hcpu h hh => ?_, fun hcpu => hcpu _ (.inl hs)⟩
    rcases hh with hh | hh
    · rwa [hh.unique hs]
    · exact absurd hh (ht h)
  | overTargetHost hs ht ha hb =>
    rw [ha.trail_cons_iff, and_iff_left hb.trail_last]
    refine ⟨fun hcpu h hh => ?_, fun hcpu => hcpu _ (.inr ht)⟩
    rcases hh with hh | hh
    · exact absurd hh (hs h)
    · rwa [hh.unique ht]

theorem Walk.middleFabric (h : Walk nodes source target hops f) : MiddleFabric hops f := by
  cases h with
  | overSharedHost => exact .inr rfl
  | overHosts => exact rfl
  | overSourceHost => exact .inr rfl
  | overTargetHost => exact .inl rfl

/-- A link that stands for a walk is one over CPU nodes if that walk is, or if there happens to be
another walk of its fabric and its weight. -/
theorem Walk.overCpus_iff (h : Walk nodes source l.target hops l.fabric)
    (hw : l.weight.toNat = weightOf hops) :
    (∃ route, OverCpus nodes source l route) ↔ CpuHosts nodes source l.target
      ∨ ∃ route, route ≠ hops ∧ OverCpus nodes source l route := by
  constructor
  · rintro ⟨route, hroute⟩
    by_cases heq : route = hops
    · subst heq
      exact .inl (h.trail_iff.1 hroute.trail)
    · exact .inr ⟨route, heq, hroute⟩
  · rintro (hcpu | ⟨route, -, hroute⟩)
    · exact ⟨hops, h.trail_iff.2 hcpu, h.middleFabric, hw⟩
    · exact ⟨route, hroute⟩

theorem OverCpus.exists_cpu (h : OverCpus nodes source l hops) : ∃ n ∈ nodes, n.isGpu = false := by
  cases h.trail with
  | last => exact h.fabric.elim
  | step _ _ _ hcpu _ =>
    obtain ⟨n, hn, hgpu⟩ := hcpu
    exact ⟨n, List.mem_of_getElem? hn, hgpu⟩

section Direct

theorem first_direct_iff {P : Link → Prop} (hP : ∀ k, P k → k.kind = .direct) (n : Node) :
    First P n.direct.links l ↔ First P n.links l := by
  classical
  have hp : ∀ k, decide (P k) = true ↔ P k := fun k => decide_eq_true_iff
  rw [← find?_eq_some_iff_first hp, ← find?_eq_some_iff_first hp, n.find?_direct]
  intro k hk
  simpa [Link.isDirect] using hP k ((hp k).1 hk)

theorem hop_map_direct_iff :
    Hop (nodes.map (·.direct)) source target l ↔ Hop nodes source target l := by
  simp only [Hop, List.getElem?_map, Option.map_eq_some_iff]
  constructor
  · rintro ⟨_, ⟨n, hn, rfl⟩, hl⟩
    exact ⟨n, hn, (first_direct_iff (fun _ h => h.1) n).1 hl⟩
  · rintro ⟨n, hn, hl⟩
    exact ⟨_, ⟨n, hn, rfl⟩, (first_direct_iff (fun _ h => h.1) n).2 hl⟩

theorem host_map_direct_iff {gpu host : UInt32} :
    Host (nodes.map (·.direct)) gpu host ↔ Host nodes gpu host := by
  rw [← host?_eq_some_iff, host?_map_direct, host?_eq_some_iff]

/-- A walk over the direct links is a walk, whatever indirect links there are. -/
theorem Walk.of_map_direct (h : Walk (nodes.map (·.direct)) source target hops f) :
    Walk nodes source target hops f := by
  have hop : ∀ {a b k}, Hop (nodes.map (·.direct)) a b k → Hop nodes a b k := hop_map_direct_iff.1
  have host : ∀ {g h}, Host (nodes.map (·.direct)) g h ↔ Host nodes g h := host_map_direct_iff
  cases h with
  | overSharedHost hs ht ha hb =>
    exact .overSharedHost (host.1 hs) (host.1 ht) (hop ha) (hop hb)
  | overHosts hs ht hne ha hb hc hqpi =>
    exact .overHosts (host.1 hs) (host.1 ht) hne (hop ha) (hop hb) (hop hc) hqpi
  | overSourceHost hs ht ha hb =>
    exact .overSourceHost (host.1 hs) (fun h hh => ht h (host.2 hh)) (hop ha) (hop hb)
  | overTargetHost hs ht ha hb =>
    exact .overTargetHost (fun h hh => hs h (host.2 hh)) (host.1 ht) (hop ha) (hop hb)

end Direct

end Route

/-- An indirect link that an attempt finds stands for a walk over the snapshot. -/
theorem Reading.Along.exists_walk {r : Reading} {es : List Exchange} {s : Progress} {S : Snapshot}
    (h : r.Along es s) {t : Tally} (hS : S.nodes = (r.outcome t).1) {i : Nat} {n : Node} {l : Link}
    (hn : S.nodes[i]? = some n) (hl : l ∈ n.links) (hkind : l.kind = .indirect) :
    ∃ hops, Route.Walk S.nodes (.ofNat i) l.target hops l.fabric
      ∧ l.weight.toNat = Route.weightOf hops := by
  have hdirect : S.nodes.map (·.direct) = r.nodes.map (·.node) := hS ▸ r.map_direct_outcome t
  rw [hS] at hn
  obtain ⟨rn, hrn, rfl⟩ := h.exists_fill hn
  rcases List.mem_append.1 hl with hl | hl
  · cases hkind.symm.trans (kind_of_mem_found hl)
  have hroute := List.mem_of_mem_take hl
  rw [Reading.routes] at hroute
  split_ifs at hroute
  · cases hroute
  have hread : (r.nodes.map (·.node))[i]? = some rn.node := by
    rw [List.getElem?_map, hrn]
    rfl
  obtain ⟨hops, hwalk, hw⟩ :=
    ((Route.mem_routesFrom_iff h.length_le_size hread).1 hroute).walk
  rw [← hdirect] at hwalk
  exact ⟨hops, hwalk.of_map_direct, hw⟩

/-- Every indirect link has the fabric and the weight of a walk over CPU nodes. -/
def Snapshot.RoutesOverCpus (S : Snapshot) : Prop :=
  ∀ {i n l}, S.nodes[i]? = some n → l ∈ n.links → l.kind = .indirect →
    ∃ hops, Route.OverCpus S.nodes (.ofNat i) l hops

namespace Capture

/-- An indirect link stands for the one walk over the hosts of its ends. It is a walk over CPU
nodes exactly if those hosts are CPU nodes, unless another walk over CPU nodes has its fabric and
weight. -/
theorem take_routesOverCpus_iff (c : Capture) (p : Publisher) : ∃ S tally,
    p.take machine c = ((.ok (), p.publish S tally), c)
      ∧ ∀ {i n l}, S.nodes[i]? = some n → l ∈ n.links → l.kind = .indirect → ∃ hops,
        Route.Walk S.nodes (.ofNat i) l.target hops l.fabric
        ∧ l.weight.toNat = Route.weightOf hops
        ∧ ((∃ route, Route.OverCpus S.nodes (.ofNat i) l route)
          ↔ Route.CpuHosts S.nodes (.ofNat i) l.target
            ∨ ∃ route, route ≠ hops ∧ Route.OverCpus S.nodes (.ofNat i) l route) := by
  obtain ⟨S, tally, r, es, s, htake, hread, hS⟩ := exists_read c p
  refine ⟨S, tally, htake, fun hn hl hkind => ?_⟩
  obtain ⟨hops, hwalk, hw⟩ := hread.along.exists_walk hS hn hl hkind
  exact ⟨hops, hwalk, hw, hwalk.overCpus_iff hw⟩

/-- Three GPUs in a row, with no host. -/
def row : Capture :=
  let pci (target : UInt32) := some (CapturedNode.directLink target .pciExpress 20)
  let gpu (id : UInt32) := (CapturedNode.gpu id).addBank { heap := .framePublic }
  { nodes := [(gpu 7).addLink (pci 1), (gpu 8).addLink (pci 0) |>.addLink (pci 2),
      (gpu 9).addLink (pci 1)] }

/-- All nodes of the snapshot are GPUs, so the route from the first to the third is one over a
GPU. -/
theorem row_not_routesOverCpus : ∃ S tally,
    ({} : Publisher).take machine row = ((.ok (), ({} : Publisher).publish S tally), row)
      ∧ ¬ S.RoutesOverCpus := by
  obtain ⟨S, tally, r, es, s, htake, hread, hS⟩ := exists_read row {}
  have hrow : (({} : Publisher).take machine row).1.2.current.map (fun q =>
      (q.snapshot.nodes.all (·.isGpu), q.snapshot.nodes.any (·.links.any (·.isIndirect))))
      = some (true, true) := by decide +kernel
  rw [htake] at hrow
  obtain ⟨hgpus, hroute⟩ := Prod.mk.inj (Option.some.inj hrow)
  obtain ⟨n, hn, hlinks⟩ := List.any_eq_true.1 hroute
  obtain ⟨l, hl, hkind⟩ := List.any_eq_true.1 hlinks
  obtain ⟨i, hi⟩ := List.getElem?_of_mem hn
  refine ⟨S, tally, htake, fun h => ?_⟩
  obtain ⟨hops, hover⟩ := h hi hl (of_decide_eq_true hkind)
  obtain ⟨m, hm, hcpu⟩ := hover.exists_cpu
  exact Bool.false_ne_true (hcpu.symm.trans (List.all_eq_true.1 hgpus m hm))

end Capture

end ComputeTopology
