import ComputeTopology.Proofs.Routed

/-!
# Which nodes are joined by a route

Of the links that a node gets each stands for a walk (`Route.Stands`) to a node that it may be
joined to and has no link to: its weight is the sum of the hops, its fabric that of the middle one.
The other way round a node gets all of those links, by target, until it is full. A walk with a sum
of more than 32 bits joins nothing (`Route.complete_joins`).
-/

namespace ComputeTopology.Route

variable {nodes : List Node} {i : Nat} {n : Node}

/-- The link stands for a walk from node `n` in place `i` to a node that it has no link to. -/
structure Stands (nodes : List Node) (i : Nat) (n : Node) (l : Link) : Prop where
  link : l = Link.route (.ofNat i) l.target l.fabric l.weight
  unlinked : ∀ k ∈ n.links, k.target ≠ l.target
  joinable : ∃ m, nodes[l.target.toNat]? = some m ∧ Joinable (.ofNat i) l.target n m
  walk : ∃ hops, Walk nodes (.ofNat i) l.target hops l.fabric ∧ l.weight.toNat = weightOf hops

theorem mem_routesFrom_iff_find? (hsize : nodes.length ≤ UInt32.size) (hn : nodes[i]? = some n)
    {l : Link} : l ∈ routesFrom nodes i ↔ (∀ k ∈ n.links, k.target ≠ l.target) ∧ ∃ route,
      find? nodes (.ofNat i) l.target = some route
        ∧ l = Link.route (.ofNat i) l.target route.1 route.2 := by
  have hi := toNat_of_lt_length hsize (List.getElem?_eq_some_iff.1 hn).1
  constructor
  · intro h
    obtain ⟨target, -, hl⟩ := List.mem_filterMap.1 h
    obtain ⟨n', route, hn', hunlinked, hroute, rfl⟩ := candidate?_eq_some_iff.1 hl
    rw [hi] at hn'
    obtain rfl : n = n' := Option.some.inj (hn.symm.trans hn')
    exact ⟨hunlinked, route, hroute, rfl⟩
  · rintro ⟨hunlinked, route, hroute, hl⟩
    obtain ⟨_, _, _, -, hm, -⟩ := find?_eq_some_iff.1 hroute
    refine List.mem_filterMap.2 ⟨l.target.toNat, ?_, ?_⟩
    · exact List.mem_range.2 (List.getElem?_eq_some_iff.1 hm).1
    · rw [UInt32.ofNat_toNat]
      exact candidate?_eq_some_iff.2 ⟨n, route, by rwa [hi], hunlinked, hroute, hl⟩

theorem mem_routesFrom_iff (hsize : nodes.length ≤ UInt32.size) (hn : nodes[i]? = some n)
    {l : Link} : l ∈ routesFrom nodes i ↔ Stands nodes i n l := by
  have hi := toNat_of_lt_length hsize (List.getElem?_eq_some_iff.1 hn).1
  rw [mem_routesFrom_iff_find? hsize hn]
  constructor
  · rintro ⟨hunlinked, ⟨fabric, weight⟩, hroute, hl⟩
    obtain ⟨rfl, rfl⟩ : l.fabric = fabric ∧ l.weight = weight := by
      rw [hl]
      exact ⟨rfl, rfl⟩
    obtain ⟨n', m, hops, hn', hm, hjoin, hwalk, hw⟩ := find?_eq_some_iff.1 hroute
    rw [hi] at hn'
    obtain rfl : n = n' := Option.some.inj (hn.symm.trans hn')
    exact ⟨hl, hunlinked, ⟨m, hm, hjoin⟩, hops, hwalk, hw⟩
  · rintro ⟨hl, hunlinked, ⟨m, hm, hjoin⟩, hops, hwalk, hw⟩
    refine ⟨hunlinked, (l.fabric, l.weight), ?_, hl⟩
    exact find?_eq_some_iff.2 ⟨n, m, hops, by rwa [hi], hm, hjoin, hwalk, hw⟩

/-- What a node gets are the walks from it, each as a link of its weight and fabric: none but those,
and all of them as long as there is room, where those to a smaller target come first. -/
theorem complete_joins (hsize : nodes.length < UInt32.size) (tally : Tally)
    (hn : nodes[i]? = some n) : ∃ n' added, (complete nodes tally).1[i]? = some n'
      ∧ n'.links = n.links ++ added
      ∧ (∀ l ∈ added, Stands nodes i n l)
      ∧ (∀ l, Stands nodes i n l → l ∈ added
        ∨ nodes.length - 1 ≤ n'.links.length ∧ ∀ k ∈ added, k.target < l.target)
      ∧ ∀ target hops fabric, Walk nodes (.ofNat i) target hops fabric →
        UInt32.size ≤ weightOf hops → ∀ l ∈ added, l.target ≠ target := by
  have hle := Nat.le_of_lt hsize
  have hstands : ∀ l ∈ (routesFrom nodes i).take (nodes.length - 1 - n.links.length),
      Stands nodes i n l := fun l hl =>
    (mem_routesFrom_iff hle hn).1 (List.mem_of_mem_take hl)
  refine ⟨fill (nodes.length - 1) n (routesFrom nodes i), _, ?_, rfl, hstands, fun l hl => ?_,
    fun target hops fabric hwalk hheavy l hl htarget => ?_⟩
  · rw [complete_fst_eq hle, List.getElem?_mapIdx, hn]
    rfl
  · -- a route that is not among those taken comes behind them, so they fill the node
    have hmem := (mem_routesFrom_iff hle hn).2 hl
    have hsplit := pairwise_routesFrom hle i
    rw [← List.take_append_drop (nodes.length - 1 - n.links.length) (routesFrom nodes i)]
      at hmem hsplit
    rcases List.mem_append.1 hmem with htaken | hdropped
    · exact .inl htaken
    · refine .inr ⟨?_, fun k hk => (List.pairwise_append.1 hsplit).2.2 k hk l hdropped⟩
      have hpos := List.length_pos_of_mem hdropped
      rw [List.length_drop] at hpos
      simp only [fill, List.length_append, List.length_take]
      omega
  · obtain ⟨hops', hwalk', hw⟩ := (hstands l hl).walk
    rw [htarget] at hwalk'
    obtain ⟨rfl, -⟩ := hwalk.unique hwalk'
    have hlt := l.weight.toNat_lt_size
    omega

/-- Two sockets with a GPU on each. -/
def sockets : List Node :=
  let pci (target : UInt32) : Link := { fabric := .pciExpress, target, weight := 20 }
  let xgmi (target : UInt32) : Link := { fabric := .xgmi, target, weight := 21 }
  [⟨{}, [], [], [xgmi 1, pci 2]⟩,
    ⟨{}, [], [], [xgmi 0, pci 3]⟩,
    ⟨{ gpuId := 21 }, [{ heap := .framePublic }], [], [pci 0]⟩,
    ⟨{ gpuId := 22 }, [{ heap := .framePublic }], [], [pci 1]⟩]

theorem complete_joins_sockets : sockets.length < UInt32.size ∧ ∃ n, sockets[2]? = some n
    ∧ Stands sockets 2 n (Link.route 2 3 .xgmi 61)
    ∧ ∃ n' added, (complete sockets {}).1[2]? = some n' ∧ n'.links = n.links ++ added
      ∧ (∀ l ∈ added, Stands sockets 2 n l)
      ∧ (∀ l, Stands sockets 2 n l → l ∈ added
        ∨ sockets.length - 1 ≤ n'.links.length ∧ ∀ k ∈ added, k.target < l.target)
      ∧ ∀ target hops fabric, Walk sockets (.ofNat 2) target hops fabric →
        UInt32.size ≤ weightOf hops → ∀ l ∈ added, l.target ≠ target := by
  have hmem : Link.route 2 3 .xgmi 61 ∈ routesFrom sockets 2 := by decide +kernel
  refine ⟨by decide, sockets[2], rfl, ?_, complete_joins (by decide) {} rfl⟩
  exact (mem_routesFrom_iff (by decide) rfl).1 hmem

end ComputeTopology.Route
