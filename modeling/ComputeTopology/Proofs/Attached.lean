import ComputeTopology.Proofs.Placed

/-!
# Fully attached machines

On a fully attached machine every GPU hangs off a CPU of its own socket and the CPUs are linked
among themselves, over links that routes can take (`Capture.FullyAttached`). Between every two nodes
without a link there is a walk then: to the host of the source, on to the host of the target, and
back along a link of the target (`Capture.FullyAttached.exists_walk`). As there is room for every
route, a survey links every two nodes (`Capture.take_closes`).
-/

namespace ComputeTopology

/-- Links that are placed and lead to all other nodes are as many as these. -/
theorem Placed.length_eq {count i : Nat} {links : List Link} (h : Placed count i links)
    (hi : i < count) (hall : ∀ j < count, j ≠ i → ∃ l ∈ links, l.target.toNat = j) :
    links.length = count - 1 := by
  refine Nat.le_antisymm (h.length_le hi) ?_
  have hsub : (List.range count).erase i ⊆ links.map (·.target.toNat) := by
    intro j hj
    obtain ⟨hne, hmem⟩ := (List.nodup_range.mem_erase_iff).1 hj
    obtain ⟨l, hl, rfl⟩ := hall j (List.mem_range.1 hmem) hne
    exact List.mem_map_of_mem hl
  have hle := ((List.nodup_range.erase i).subperm hsub).length_le
  rwa [List.length_map, List.length_erase_of_mem (List.mem_range.2 hi), List.length_range] at hle

/-- Every two nodes are linked, by one link each way. -/
structure Snapshot.Closed (S : Snapshot) : Prop where
  linked : ∀ {i j : Nat}, i < S.nodes.length → j < S.nodes.length → i ≠ j →
    ∃ l, S.linkBetween? (.ofNat i) (.ofNat j) = some l
  total : S.totalLinks = S.nodes.length * (S.nodes.length - 1)

namespace Capture

/-- The links from node `i` to node `j`. -/
def linksTo (c : Capture) (i j : Fin c.nodes.length) : List Link :=
  (c.nodes.get i).supported.filter (·.target.toNat = j)

/-- Every GPU hangs off a CPU of its socket, and every CPU is linked with every other one. -/
structure FullyAttached (c : Capture) : Prop extends Orderly c where
  peers : ∀ n ∈ c.nodes, n.peerLinks = []
  /-- Where a link leads, one leads back. -/
  back : ∀ i j, c.linksTo i j ≠ [] → c.linksTo j i ≠ []
  cpus : ∀ i j, (c.nodes.get i).profile.isGpu = false → (c.nodes.get j).profile.isGpu = false →
    i ≠ j → ∃ l ∈ c.linksTo i j, ¬ (l.fabric = .qpi ∧ Route.socketWeight < l.weight)
  host : ∀ i, (c.nodes.get i).profile.isGpu = true →
    ∃ j, (c.nodes.get j).profile.isGpu = false ∧ ∃ l ∈ c.linksTo i j, Route.Near l
  apart : ∀ i j, (c.nodes.get i).profile.isGpu = true → (c.nodes.get j).profile.isGpu = true →
    ∀ l ∈ c.linksTo i j, ¬ Route.Near l
  gpus : ∀ n ∈ c.nodes, n.profile.isGpu = true → n.profile.hiveId = 0
    ∧ (∃ b ∈ n.banks, b.heap = .framePublic) ∧ n.banks.length < UInt32.size
  /-- No three nodes have links which are too heavy together. -/
  light : ∀ i j k : Fin c.nodes.length, i ≠ j → j ≠ k → i ≠ k →
    ∀ x ∈ (c.nodes.get i).supported, ∀ y ∈ (c.nodes.get j).supported,
      ∀ z ∈ (c.nodes.get k).supported, Route.weightOf [x, y, z] < UInt32.size

/-- The node list was read from the capture. -/
structure MirroredBy (c : Capture) (nodes : List Node) : Prop where
  length : nodes.length = c.nodes.length
  node : ∀ i : Fin c.nodes.length, ∃ m, nodes[i.val]? = some m ∧ Mirrors (c.nodes.get i) m

variable {c : Capture} {D : List Node} {S : Snapshot} {i j : Fin c.nodes.length} {l : Link}

theorem getElem?_get (i : Fin c.nodes.length) : c.nodes[i.val]? = some (c.nodes.get i) :=
  List.getElem?_eq_getElem i.2

theorem ne_of_isGpu (hgpu : (c.nodes.get i).profile.isGpu = true)
    (hcpu : (c.nodes.get j).profile.isGpu = false) : i ≠ j := by
  rintro rfl
  rw [hgpu] at hcpu
  cases hcpu

namespace Orderly

theorem toNat_ofNat (hc : c.Orderly) (i : Fin c.nodes.length) : (UInt32.ofNat i).toNat = i :=
  UInt32.toNat_ofNat_of_lt' (Nat.lt_trans i.2 hc.nodes)

theorem ofNat_ne (hc : c.Orderly) (hne : i ≠ j) : UInt32.ofNat i ≠ UInt32.ofNat j := by
  intro heq
  have h := congrArg UInt32.toNat heq
  rw [hc.toNat_ofNat, hc.toNat_ofNat] at h
  exact hne (Fin.ext h)

theorem mem_linksTo_iff (hc : c.Orderly) :
    l ∈ c.linksTo i j ↔ l ∈ (c.nodes.get i).supported ∧ l.target = .ofNat j := by
  rw [linksTo, List.mem_filter, decide_eq_true_iff, ← UInt32.toNat_inj, hc.toNat_ofNat]

/-- The link from one node to another is the first one that leads there, as there is no other. -/
theorem hop (hc : c.Orderly) (hD : c.MirroredBy D) (hl : l ∈ c.linksTo i j) :
    Route.Hop D (.ofNat i) (.ofNat j) l := by
  obtain ⟨m, hm, hmirrors⟩ := hD.node i
  obtain ⟨hmem, htarget⟩ := hc.mem_linksTo_iff.1 hl
  refine ⟨m, by rwa [hc.toNat_ofNat], ?_⟩
  rw [hmirrors.links, ← htarget]
  exact (hc.placed (getElem?_get i)).first hmem (kind_of_mem_found hmem)

theorem not_host (hc : c.Orderly) (hD : c.MirroredBy D)
    (hcpu : (c.nodes.get i).profile.isGpu = false) (h : UInt32) : ¬ Route.Host D (.ofNat i) h := by
  rintro ⟨n, -, hn, hgpu, -, -⟩
  obtain ⟨m, hm, hmirrors⟩ := hD.node i
  rw [hc.toNat_ofNat] at hn
  obtain rfl : m = n := Option.some.inj (hm.symm.trans hn)
  rw [hmirrors.isGpu, hcpu] at hgpu
  cases hgpu

end Orderly

namespace FullyAttached

/-- A GPU has a host among the CPUs, and links in both directions to it. -/
theorem exists_host (hc : c.FullyAttached) (hD : c.MirroredBy D)
    (hgpu : (c.nodes.get i).profile.isGpu = true) : ∃ h : Fin c.nodes.length,
      Route.Host D (.ofNat i) (.ofNat h) ∧ (c.nodes.get h).profile.isGpu = false
        ∧ (∃ l, l ∈ c.linksTo i h) ∧ ∃ l, l ∈ c.linksTo h i := by
  obtain ⟨m, hm, hmirrors⟩ := hD.node i
  obtain ⟨_, -, l, hl, hnear⟩ := hc.host i hgpu
  obtain ⟨k, hk⟩ := Route.First.exists (List.mem_of_mem_filter hl) hnear
  have hplaced := hc.placed (getElem?_get i)
  let h : Fin c.nodes.length := ⟨k.target.toNat, hplaced.target_lt k hk.mem⟩
  have htarget : k.target = .ofNat h := by simp [h]
  have hkh : k ∈ c.linksTo i h := hc.mem_linksTo_iff.2 ⟨hk.mem, htarget⟩
  refine ⟨h, ⟨m, k, by rwa [hc.toNat_ofNat], ?_, ?_, htarget⟩, ?_, ⟨k, hkh⟩, ?_⟩
  · rw [hmirrors.isGpu, hgpu]
  · rwa [hmirrors.links]
  · by_contra hnot
    exact hc.apart i h hgpu (by simpa using hnot) k hkh hk.prop
  · exact List.exists_mem_of_ne_nil _ (hc.back i h (List.ne_nil_of_mem hkh))

/-- The weights of a walk over one host have a sum of 32 bits. -/
theorem weightOf_lt (hc : c.FullyAttached) {h : Fin c.nodes.length} {x y z : Link} (hih : i ≠ h)
    (hhj : h ≠ j) (hij : i ≠ j) (hx : x ∈ c.linksTo i h) (hy : y ∈ c.linksTo h j)
    (hz : z ∈ c.linksTo j h) : Route.weightOf [x, y] < UInt32.size := by
  have hlight := hc.light i h j hih hhj hij x (List.mem_of_mem_filter hx) y
    (List.mem_of_mem_filter hy) z (List.mem_of_mem_filter hz)
  simp only [Route.weightOf, List.map_cons, List.map_nil, List.sum_cons, List.sum_nil] at hlight ⊢
  omega

theorem isGpu_or_isGpu (hc : c.FullyAttached) (hne : i ≠ j) (hnone : c.linksTo i j = []) :
    (c.nodes.get i).profile.isGpu = true ∨ (c.nodes.get j).profile.isGpu = true := by
  by_contra hnot
  simp only [not_or, Bool.not_eq_true] at hnot
  obtain ⟨l, hl, -⟩ := hc.cpus i j hnot.1 hnot.2 hne
  rw [hnone] at hl
  cases hl

/-- The walk leads over the hosts of those of its ends that are GPUs. -/
theorem exists_walk (hc : c.FullyAttached) (hD : c.MirroredBy D) (hne : i ≠ j)
    (hnone : c.linksTo i j = []) : ∃ hops f, Route.Walk D (.ofNat i) (.ofNat j) hops f
      ∧ Route.weightOf hops < UInt32.size := by
  have hop : ∀ {a b : Fin c.nodes.length} {l : Link}, l ∈ c.linksTo a b →
      Route.Hop D (.ofNat a) (.ofNat b) l := hc.hop hD
  have hunlinked : ∀ l, l ∉ c.linksTo i j := List.eq_nil_iff_forall_not_mem.1 hnone
  rcases hi : (c.nodes.get i).profile.isGpu <;> rcases hj : (c.nodes.get j).profile.isGpu
  case false.false =>
    have hor := hc.isGpu_or_isGpu hne hnone
    rw [hi, hj] at hor
    cases hor <;> contradiction
  case false.true =>
    obtain ⟨h, hhost, hcpu, ⟨z, hz⟩, y, hy⟩ := hc.exists_host hD hj
    have hih : i ≠ h := by
      rintro rfl
      exact hunlinked y hy
    obtain ⟨x, hx, -⟩ := hc.cpus i h hi hcpu hih
    exact ⟨_, _, .overTargetHost (hc.not_host hD hi) hhost (hop hx) (hop hy),
      hc.weightOf_lt hih (ne_of_isGpu hj hcpu).symm hne hx hy hz⟩
  case true.false =>
    obtain ⟨h, hhost, hcpu, ⟨x, hx⟩, -⟩ := hc.exists_host hD hi
    have hhj : h ≠ j := by
      rintro rfl
      exact hunlinked x hx
    obtain ⟨y, hy, -⟩ := hc.cpus h j hcpu hj hhj
    obtain ⟨z, hz, -⟩ := hc.cpus j h hj hcpu hhj.symm
    exact ⟨_, _, .overSourceHost hhost (hc.not_host hD hj) (hop hx) (hop hy),
      hc.weightOf_lt (ne_of_isGpu hi hcpu) hhj hne hx hy hz⟩
  case true.true =>
    obtain ⟨h, hhost, hcpu, ⟨x, hx⟩, -⟩ := hc.exists_host hD hi
    obtain ⟨h', hhost', hcpu', ⟨z, hz⟩, y, hy⟩ := hc.exists_host hD hj
    by_cases hsame : h = h'
    · subst hsame
      exact ⟨_, _, .overSharedHost hhost hhost' (hop hx) (hop hy),
        hc.weightOf_lt (ne_of_isGpu hi hcpu) (ne_of_isGpu hj hcpu).symm hne hx hy hz⟩
    · obtain ⟨l, hl, hqpi⟩ := hc.cpus h h' hcpu hcpu' hsame
      refine ⟨_, _, .overHosts hhost hhost' (hc.ofNat_ne hsame) (hop hx) (hop hl) (hop hy)
        hqpi, ?_⟩
      exact hc.light i h h' (ne_of_isGpu hi hcpu) hsame (ne_of_isGpu hi hcpu') x
        (List.mem_of_mem_filter hx) l (List.mem_of_mem_filter hl) y (List.mem_of_mem_filter hy)

theorem joinable (hc : c.FullyAttached) {n m : Node} (hn : Mirrors (c.nodes.get i) n)
    (hm : Mirrors (c.nodes.get j) m) (hne : i ≠ j) (hnone : c.linksTo i j = []) :
    Route.Joinable (.ofNat i) (.ofNat j) n m where
  ne := hc.ofNat_ne hne
  gpu := by
    rw [hn.isGpu, hm.isGpu]
    exact hc.isGpu_or_isGpu hne hnone
  hive := by
    rw [hn.hiveId, hm.hiveId]
    -- a CPU may be in a hive, but not in one with a GPU
    rcases hc.isGpu_or_isGpu hne hnone with hi | hj
    · exact .inl (hc.gpus _ (List.get_mem _ i) hi).1
    · have hzero : (c.nodes.get j).profile.hiveId = 0 := (hc.gpus _ (List.get_mem _ j) hj).1
      rw [hzero]
      exact eq_or_ne _ 0
  frame := by
    intro hgpu
    rw [hm.isGpu] at hgpu
    obtain ⟨-, hframe, hbanks⟩ := hc.gpus _ (List.get_mem _ j) hgpu
    rwa [hm.banks hbanks]

theorem exists_route (hc : c.FullyAttached) (hD : c.MirroredBy D) (hne : i ≠ j)
    (hnone : c.linksTo i j = []) : ∃ route, Route.find? D (.ofNat i) (.ofNat j) = some route := by
  obtain ⟨n, hn, hni⟩ := hD.node i
  obtain ⟨m, hm, hmj⟩ := hD.node j
  obtain ⟨hops, fabric, hwalk, hlt⟩ := hc.exists_walk hD hne hnone
  refine ⟨(fabric, .ofNat (Route.weightOf hops)), Route.find?_eq_some_iff.2 ?_⟩
  refine ⟨n, m, hops, ?_, ?_, hc.joinable hni hmj hne hnone, hwalk, ?_⟩
  · rwa [hc.toNat_ofNat]
  · rwa [hc.toNat_ofNat]
  · exact UInt32.toNat_ofNat_of_lt' hlt

end FullyAttached

theorem Read.mirroredBy {r : Reading} {es : List Exchange} {s : Progress} (h : c.Read r es s)
    (hc : c.Orderly) : c.MirroredBy (r.nodes.map (·.node)) := by
  have hlength : (r.nodes.map (·.node)).length = c.nodes.length := by
    rw [List.length_map, h.length_eq hc]
  refine ⟨hlength, fun i => ?_⟩
  have hi : i.val < (r.nodes.map (·.node)).length := by
    rw [hlength]
    exact i.2
  have hm := List.getElem?_eq_getElem hi
  obtain ⟨n, hn, hmirrors⟩ := h.exists_mirrors hc hm
  rw [getElem?_get] at hn
  obtain rfl := Option.some.inj hn
  exact ⟨_, hm, hmirrors⟩

/-- A node has a link to every other one: one of the capture, or else a route. -/
theorem FullyAttached.exists_link (hc : c.FullyAttached) (hkeeps : c.Keeps S)
    (hD : c.MirroredBy (S.nodes.map (·.direct))) (hne : i ≠ j) {n : Node}
    (hn : S.nodes[i.val]? = some n) : ∃ l ∈ n.links, l.target = .ofNat j := by
  obtain ⟨n', hn', hreported⟩ := hkeeps.reported (getElem?_get i)
  obtain rfl : n = n' := Option.some.inj (hn.symm.trans hn')
  by_cases hlinked : ∃ l ∈ n.reported, l.target = .ofNat j
  · obtain ⟨l, hl, htarget⟩ := hlinked
    exact ⟨l, List.mem_of_mem_filter hl, htarget⟩
  · have hunlinked : ∀ l ∈ n.reported, l.target ≠ .ofNat j := fun l hl htarget =>
      hlinked ⟨l, hl, htarget⟩
    have hnone : c.linksTo i j = [] := by
      refine List.eq_nil_iff_forall_not_mem.2 fun l hl => ?_
      obtain ⟨hmem, htarget⟩ := hc.mem_linksTo_iff.1 hl
      exact hunlinked l (hreported ▸ hmem) htarget
    obtain ⟨route, hroute⟩ := hc.exists_route hD hne hnone
    exact ⟨_, hkeeps.routes hc.peers hn hunlinked hroute, rfl⟩

theorem FullyAttached.closed (hc : c.FullyAttached) (hkeeps : c.Keeps S)
    (hD : c.MirroredBy (S.nodes.map (·.direct))) : S.Closed := by
  have hlink : ∀ {a b : Nat} {n : Node}, S.nodes[a]? = some n → b < S.nodes.length → b ≠ a →
      ∃ l ∈ n.links, l.target.toNat = b := by
    intro a b n hn hb hne
    have ha := (List.getElem?_eq_some_iff.1 hn).1
    rw [hkeeps.length] at ha hb
    obtain ⟨l, hl, htarget⟩ := hc.exists_link hkeeps hD (i := ⟨a, ha⟩) (j := ⟨b, hb⟩)
      (fun heq => hne (Fin.mk.inj heq).symm) hn
    refine ⟨l, hl, ?_⟩
    rw [htarget]
    exact hc.toNat_ofNat ⟨b, hb⟩
  have hlength : ∀ n ∈ S.nodes, n.links.length = S.nodes.length - 1 := by
    intro n hn
    obtain ⟨i, hi⟩ := List.getElem?_of_mem hn
    exact (hkeeps.placed hi).length_eq (List.getElem?_eq_some_iff.1 hi).1 fun j hj hne =>
      hlink hi hj hne
  refine ⟨fun {i j} hi hj hne => ?_, ?_⟩
  · have hn := List.getElem?_eq_getElem hi
    obtain ⟨l, hl, rfl⟩ := hlink hn hj hne.symm
    have hsource : (UInt32.ofNat i).toNat = i :=
      UInt32.toNat_ofNat_of_lt' (Nat.lt_trans (hkeeps.length ▸ hi) hc.nodes)
    rw [Snapshot.linkBetween?, hsource, hn, UInt32.ofNat_toNat, Option.bind_some]
    exact Option.isSome_iff_exists.1 (Route.isSome_linkTo?_iff.2 ⟨l, hl, rfl⟩)
  · rw [Snapshot.totalLinks, List.length_flatMap, List.map_congr_left hlength, List.map_const',
      List.sum_replicate_nat]

/-- On a fully attached machine a survey links every two nodes. -/
theorem take_closes (hc : c.FullyAttached) (p : Publisher) : ∃ S tally,
    p.take machine c = ((.ok (), p.publish S tally), c) ∧ S.nodes.length = c.nodes.length
      ∧ S.Closed := by
  obtain ⟨S, tally, r, es, s, htake, hread, hS⟩ := exists_read c p
  have hkeeps := hread.keeps hc.toOrderly hS
  have hD := hread.mirroredBy hc.toOrderly
  rw [← r.map_direct_outcome s.tally, ← hS] at hD
  exact ⟨S, tally, htake, hkeeps.length, hc.closed hkeeps hD⟩

/-- Two sockets, the first one with two GPUs, the second one with a GPU wired to one of them. -/
def twoSockets : Capture :=
  let pci (target : UInt32) := some (CapturedNode.directLink target .pciExpress 20)
  let qpi (target : UInt32) := some (CapturedNode.directLink target .qpi 20)
  let xgmi (target : UInt32) := some (CapturedNode.directLink target .xgmi 15)
  let gpu (id : UInt32) := (CapturedNode.gpu id).addBank { heap := .framePublic }
  { nodes := [
      { CapturedNode.cpu 4 with links := [qpi 1, pci 2, pci 3] },
      { CapturedNode.cpu 4 with links := [qpi 0, pci 4] },
      { gpu 7 with links := [pci 0, xgmi 4] },
      { gpu 8 with links := [pci 0] },
      { gpu 9 with links := [xgmi 2, pci 1] }] }

theorem fullyAttached_twoSockets : twoSockets.FullyAttached where
  toOrderly := by decide
  peers := by decide
  back := by decide +kernel
  cpus := by decide +kernel
  host := by decide +kernel
  apart := by decide +kernel
  gpus := by decide
  light := by decide +kernel

theorem take_closes_twoSockets : twoSockets.FullyAttached
    ∧ (({} : Publisher).take machine twoSockets).1.2.current.map (·.snapshot.totalLinks) = some 20
    ∧ ∃ S tally, ({} : Publisher).take machine twoSockets
        = ((.ok (), ({} : Publisher).publish S tally), twoSockets)
      ∧ S.nodes.length = twoSockets.nodes.length ∧ S.Closed :=
  ⟨fullyAttached_twoSockets, by decide +kernel, take_closes fullyAttached_twoSockets {}⟩

end Capture

end ComputeTopology
