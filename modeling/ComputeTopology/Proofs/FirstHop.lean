import ComputeTopology.Proofs.Joined

/-!
# What the first hop counts

The host of a GPU is what its first near link leads to, but a route from the GPU counts the first
direct link that leads to the host (`Route.Walk.exists_first`). Where several links lead there these
may be two links. They are one exactly if the link that is counted is near, too
(`Route.First.eq_host_iff_near`), and only then is it sure that the first hop adds no more than the
weight within a socket (`Route.complete_firstHop`).
-/

namespace ComputeTopology.Route

variable {nodes : List Node} {i : Nat} {n : Node} {host first l : Link} {rest : List Link}

/-- Of the direct links to the host the first one is near only if it made the node the host. -/
theorem First.eq_host_iff_near {links : List Link} (hhost : First Near links host)
    (hfirst : First (fun k => k.kind = .direct ∧ k.target = host.target) links first) :
    first = host ↔ Near first := by
  refine ⟨fun heq => heq ▸ hhost.prop, fun hnear => ?_⟩
  obtain ⟨before, after, rfl, -, hbefore⟩ := hfirst
  obtain ⟨before', after', hlinks, hnear', hbefore'⟩ := hhost
  -- whichever of the two comes first, the other one was to come before it
  rcases List.append_eq_append_iff.1 hlinks with ⟨between, hsplit, htail⟩ | ⟨between, hsplit, htail⟩
  · rcases between with _ | ⟨k, between⟩
    · exact (List.cons.inj htail).1
    · obtain ⟨rfl, -⟩ := List.cons.inj htail
      exact absurd hnear (hbefore' _ (by simp [hsplit]))
  · rcases between with _ | ⟨k, between⟩
    · exact (List.cons.inj htail).1.symm
    · obtain ⟨rfl, -⟩ := List.cons.inj htail
      exact absurd ⟨hnear'.1, rfl⟩ (hbefore _ (by simp [hsplit]))

theorem Walk.exists_first {source target via : UInt32} {hops : List Link} {f : Fabric}
    (h : Walk nodes source target hops f) (hvia : Host nodes source via) :
    ∃ first rest, hops = first :: rest ∧ Hop nodes source via first := by
  cases h with
  | overSharedHost hs _ ha hb => exact ⟨_, _, rfl, hvia.unique hs ▸ ha⟩
  | overHosts hs _ _ ha hb hc => exact ⟨_, _, rfl, hvia.unique hs ▸ ha⟩
  | overSourceHost hs _ ha hb => exact ⟨_, _, rfl, hvia.unique hs ▸ ha⟩
  | overTargetHost hs => exact absurd hvia (hs via)

/-- The route `l` from node `n` in place `i` leads over the link `first` and over `rest`, where `host`
is the link that made its target the host of the node. -/
structure FirstHop (nodes : List Node) (i : Nat) (n : Node) (host l first : Link)
    (rest : List Link) : Prop where
  hop : Hop nodes (.ofNat i) host.target first
  walk : Walk nodes (.ofNat i) l.target (first :: rest) l.fabric
  weight : l.weight.toNat = first.weight.toNat + weightOf rest
  eq_host_iff : first = host ↔ Near first
  /-- There is no choice if no other direct link leads to the host. -/
  sole : (∀ k ∈ n.links, k.kind = .direct → k.target = host.target → k = host) → first = host
  weight_le : first = host → l.weight.toNat ≤ weightOf rest + socketWeight.toNat

theorem Stands.exists_firstHop (h : Stands nodes i n l) (hi : (UInt32.ofNat i).toNat = i)
    (hn : nodes[i]? = some n) (hgpu : n.isGpu = true) (hhost : First Near n.links host) :
    ∃ first rest, FirstHop nodes i n host l first rest := by
  rw [← hi] at hn
  obtain ⟨hops, hwalk, hw⟩ := h.walk
  obtain ⟨first, rest, rfl, hhop⟩ := hwalk.exists_first ⟨n, host, hn, hgpu, hhost, rfl⟩
  obtain ⟨m, hm, hfirst⟩ := hhop
  obtain rfl : n = m := Option.some.inj (hn.symm.trans hm)
  have hweight : l.weight.toNat = first.weight.toNat + weightOf rest := by
    rw [hw, weightOf, List.map_cons, List.sum_cons]
    rfl
  refine ⟨first, rest, ⟨n, hn, hfirst⟩, hwalk, hweight, hhost.eq_host_iff_near hfirst,
    fun hsole => hsole _ hfirst.mem hfirst.prop.1 hfirst.prop.2, ?_⟩
  rintro rfl
  have hnear := UInt32.le_iff_toNat_le.1 hhost.prop.2.2
  omega

/-- The first hop of a route from a node with a host counts the first direct link to the host. That
is the link that made it the host if and only if it is near itself. -/
theorem complete_firstHop (hsize : nodes.length < UInt32.size) (tally : Tally)
    (hn : nodes[i]? = some n) (hgpu : n.isGpu = true) (hhost : First Near n.links host) :
    ∃ n' added, (complete nodes tally).1[i]? = some n' ∧ n'.links = n.links ++ added
      ∧ ∀ l ∈ added, ∃ first rest, FirstHop nodes i n host l first rest := by
  have hle := Nat.le_of_lt hsize
  refine ⟨fill (nodes.length - 1) n (routesFrom nodes i), _, ?_, rfl, fun l hl => ?_⟩
  · rw [complete_getElem? hle, hn, Option.map_some]
  · have hstands := (mem_routesFrom_iff hle hn).1 (List.mem_of_mem_take hl)
    have hi := toNat_of_lt_length hle (List.getElem?_eq_some_iff.1 hn).1
    exact hstands.exists_firstHop hi hn hgpu hhost

/-- A host with two GPUs, the first one with a far link to the host ahead of the near one, and a node
that no link leads to. -/
def twiceWired : List Node :=
  let pci (target : UInt32) : Link := { fabric := .pciExpress, target, weight := 20 }
  let frame : List MemoryBank := [{ heap := .framePublic }]
  [⟨{}, [], [], [pci 1, pci 2]⟩,
    ⟨{ gpuId := 7 }, frame, [], [{ fabric := .xgmi, target := 0, weight := 100 }, pci 0]⟩,
    ⟨{ gpuId := 8 }, frame, [], [pci 0]⟩,
    ⟨{}, [], [], []⟩]

theorem first_near_twiceWired :
    First Near twiceWired[1].links { fabric := .pciExpress, target := 0, weight := 20 } :=
  ⟨[{ fabric := .xgmi, target := 0, weight := 100 }], [], rfl, by decide, by decide⟩

theorem complete_firstHop_twiceWired : twiceWired.length < UInt32.size
    ∧ twiceWired[1].isGpu = true
    ∧ (complete twiceWired {}).1.map (·.links.map fun l => (l.target, l.weight))
      = [[(1, 20), (2, 20)], [(0, 100), (0, 20), (2, 120)], [(0, 20), (1, 40)], []]
    ∧ ∃ host, First Near twiceWired[1].links host
      ∧ ∃ n' added, (complete twiceWired {}).1[1]? = some n'
        ∧ n'.links = twiceWired[1].links ++ added
        ∧ ∀ l ∈ added, ∃ first rest, FirstHop twiceWired 1 twiceWired[1] host l first rest :=
  ⟨by decide, by decide, by decide +kernel, _, first_near_twiceWired,
    complete_firstHop (by decide) {} rfl (by decide) first_near_twiceWired⟩

/-- The route `l` from node `n` in place `i` leads over the link that made its target the host. -/
def OverHostLink (nodes : List Node) (i : Nat) (n : Node) (l : Link) : Prop :=
  ∀ host, First Near n.links host → ∃ rest,
    Walk nodes (.ofNat i) l.target (host :: rest) l.fabric
      ∧ l.weight.toNat = weightOf (host :: rest)

/-- The route between the GPUs counts the far link, so it is heavier than the rest of it by more
than the weight within a socket. -/
theorem twiceWired_not_overHostLink : ∃ n' l, (complete twiceWired {}).1[1]? = some n'
    ∧ n'.links = twiceWired[1].links ++ [l] ∧ twiceWired[1].isGpu = true
    ∧ ¬ OverHostLink twiceWired 1 twiceWired[1] l
    ∧ ∀ first rest, Walk twiceWired 1 l.target (first :: rest) l.fabric →
      weightOf rest + socketWeight.toNat < l.weight.toNat := by
  -- the walk that there is, over the far link
  have hwalk : Walk twiceWired 1 2 [{ fabric := .xgmi, target := 0, weight := 100 },
      { fabric := .pciExpress, target := 2, weight := 20 }] .pciExpress := by
    have hs : Host twiceWired 1 0 := host?_eq_some_iff.1 (by decide)
    have ht : Host twiceWired 2 0 := host?_eq_some_iff.1 (by decide)
    have ha : Hop twiceWired 1 0 { fabric := .xgmi, target := 0, weight := 100 } :=
      ⟨_, rfl, [], _, rfl, by decide, by simp⟩
    have hb : Hop twiceWired 0 2 { fabric := .pciExpress, target := 2, weight := 20 } :=
      ⟨_, rfl, [_], _, rfl, by decide, by simp⟩
    exact .overSharedHost hs ht ha hb
  refine ⟨_, Link.route 1 2 .pciExpress 120, rfl, by decide +kernel, by decide, fun hover => ?_,
    fun first rest h => ?_⟩
  · obtain ⟨rest, h, -⟩ := hover _ first_near_twiceWired
    have hfirst := (List.cons.inj (hwalk.unique h).1).1
    exact absurd hfirst (by decide)
  · obtain ⟨-, rfl⟩ := List.cons.inj (hwalk.unique h).1
    decide

end ComputeTopology.Route
