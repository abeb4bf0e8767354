import ComputeTopology.Proofs.Joined
import Mathlib.Algebra.BigOperators.Group.List.Basic
import Mathlib.Data.List.Nodup
import Mathlib.Data.List.ProdSigma

/-!
# Routes do not lead to routes

A route is looked for over direct links alone (`Route.find?_map_direct`), so it makes no difference
whether the routes are added when all of them are known or each one as soon as it is found
(`Route.foldl_visit`). Either way node after node keeps what it has and gets the routes it misses,
as many as there is room for, and its own count and the tally grow by their number
(`Route.complete_adds`).
-/

namespace ComputeTopology

theorem Node.find?_direct (n : Node) {q : Link → Bool} (hq : ∀ l, q l = true → l.isDirect = true) :
    n.direct.links.find? q = n.links.find? q := by
  rw [Node.direct, List.find?_filter]
  congr 1
  funext l
  rcases h : q l with _ | _
  · simp
  · simp [hq l h]

namespace Route

section Direct

variable (nodes : List Node) (source target : UInt32)

theorem host?_map_direct (gpu : UInt32) : host? (nodes.map (·.direct)) gpu = host? nodes gpu := by
  simp only [host?, List.getElem?_map]
  rcases nodes[gpu.toNat]? with _ | n
  · rfl
  · have hnear := n.find?_direct (q := fun l =>
      l.isDirect && l.fabric = .pciExpress && l.weight ≤ socketWeight) (by grind)
    simp only [Option.map_some, Option.bind_eq_bind, Option.bind_some, hnear]
    rfl

theorem hop?_map_direct :
    hop? (nodes.map (·.direct)) source target = hop? nodes source target := by
  simp only [hop?, List.getElem?_map]
  rcases nodes[source.toNat]? with _ | n
  · rfl
  · have hdirect := n.find?_direct (q := fun l => l.isDirect && l.target = target) (by grind)
    simp only [Option.map_some, Option.bind_eq_bind, Option.bind_some, hdirect]

theorem find?_map_direct :
    find? (nodes.map (·.direct)) source target = find? nodes source target := by
  simp only [find?, overOne?, overTwo?, hop?_map_direct, host?_map_direct, List.getElem?_map]
  rcases nodes[source.toNat]? with _ | n
  · rfl
  · rcases nodes[target.toNat]? with _ | m <;> rfl

end Direct

/-- The pairs of `count` nodes, by source and then by target. -/
def pairs (count : Nat) : List (Nat × Nat) :=
  List.range count ×ˢ List.range count

/-- Looks for a route between two nodes of the list as it is, and adds it at once. -/
def visit (capacity : Nat) (state : List Node × Tally) (pair : Nat × Nat) : List Node × Tally :=
  match candidate? state.1 (.ofNat pair.1) (.ofNat pair.2) with
  | some l => insert capacity state l
  | none => state

def completeAtOnce (nodes : List Node) (tally : Tally) : List Node × Tally :=
  (pairs nodes.length).foldl (visit (nodes.length - 1)) (nodes, tally)

section Order

variable {nodes : List Node}

theorem candidates_eq_filterMap (nodes : List Node) : candidates nodes
    = (pairs nodes.length).filterMap fun p => candidate? nodes (.ofNat p.1) (.ofNat p.2) := by
  unfold candidates pairs
  change _ = List.filterMap _ (List.product _ _)
  rw [List.product, List.filterMap_flatMap]
  simp only [List.filterMap_map]
  rfl

theorem pairwise_pairs {count : Nat} (hsize : count ≤ UInt32.size) : (pairs count).Pairwise
    fun p q => UInt32.ofNat p.1 = .ofNat q.1 → UInt32.ofNat p.2 ≠ .ofNat q.2 := by
  have hnodup : (pairs count).Nodup := List.nodup_range.product List.nodup_range
  refine hnodup.imp_of_mem ?_
  rintro ⟨a, b⟩ ⟨c, d⟩ hp hq hne hsource htarget
  obtain ⟨ha, hb⟩ := List.mem_product.1 hp
  obtain ⟨hc, hd⟩ := List.mem_product.1 hq
  rw [List.mem_range] at ha hb hc hd
  have hinj : ∀ {x y : Nat}, x < count → y < count → UInt32.ofNat x = .ofNat y → x = y := by
    intro x y hx hy h
    have h' := congrArg UInt32.toNat h
    rwa [UInt32.toNat_ofNat_of_lt' (by omega), UInt32.toNat_ofNat_of_lt' (by omega)] at h'
  exact hne (Prod.ext (hinj ha hc hsource) (hinj hb hd htarget))

/-- A route that is added changes what is found for its own pair of nodes only. -/
theorem candidate?_insert {capacity : Nat} {state : List Node × Tally} {l : Link}
    {source target : UInt32} (hkind : l.kind = .indirect) (hpeer : l.peer = false)
    (hne : l.source = source → l.target ≠ target) :
    candidate? (insert capacity state l).1 source target = candidate? state.1 source target := by
  have hfind : find? (insert capacity state l).1 source target
      = find? state.1 source target := by
    rw [← find?_map_direct, (insert_extends (.refl state.1) hkind hpeer).map_direct,
      find?_map_direct]
  refine Option.ext fun k => ?_
  simp only [candidate?_eq_some_iff, hfind, insert_getElem?]
  by_cases hs : l.source.toNat = source.toNat
  · have htarget := hne (UInt32.toNat_inj.1 hs)
    have hunlinked : ∀ n : Node, (∀ k ∈ (fill capacity n [l]).links, k.target ≠ target)
        ↔ ∀ k ∈ n.links, k.target ≠ target := by
      intro n
      constructor
      · exact fun h k hk => h k (List.mem_append_left _ hk)
      · intro h k hk
        rcases List.mem_append.1 hk with hk | hk
        · exact h k hk
        · obtain rfl := List.mem_singleton.1 (List.mem_of_mem_take hk)
          exact htarget
    rcases hn : state.1[source.toNat]? with _ | n
    · simp [hs]
    · simp [hs, hunlinked]
  · simp [hs]

/-- As long as the pairs ahead find what they find in `nodes`, their routes can be added later. -/
theorem foldl_visit (capacity : Nat) :
    ∀ (ahead : List (Nat × Nat)) (state : List Node × Tally),
      ahead.Pairwise (fun p q => UInt32.ofNat p.1 = .ofNat q.1 → UInt32.ofNat p.2 ≠ .ofNat q.2) →
      (∀ p ∈ ahead, candidate? state.1 (.ofNat p.1) (.ofNat p.2)
        = candidate? nodes (.ofNat p.1) (.ofNat p.2)) →
      ahead.foldl (visit capacity) state
        = (ahead.filterMap fun p => candidate? nodes (.ofNat p.1) (.ofNat p.2)).foldl
            (insert capacity) state
  | [], _, _, _ => rfl
  | p :: ahead, state, hpairs, hahead => by
    obtain ⟨hfirst, hrest⟩ := List.pairwise_cons.1 hpairs
    have hp := hahead p List.mem_cons_self
    have hahead' := fun q hq => hahead q (List.mem_cons_of_mem p hq)
    rw [List.foldl_cons, List.filterMap_cons, visit, hp]
    rcases hc : candidate? nodes (.ofNat p.1) (.ofNat p.2) with _ | l
    · exact foldl_visit capacity ahead state hrest hahead'
    · rw [List.foldl_cons]
      refine foldl_visit capacity ahead _ hrest fun q hq => ?_
      obtain ⟨_, _, -, -, -, rfl⟩ := candidate?_eq_some_iff.1 hc
      rw [candidate?_insert rfl rfl (hfirst q hq), hahead' q hq]

theorem completeAtOnce_eq (hsize : nodes.length ≤ UInt32.size) (tally : Tally) :
    completeAtOnce nodes tally = complete nodes tally := by
  rw [completeAtOnce, complete, candidates_eq_filterMap]
  exact foldl_visit _ _ _ (pairwise_pairs hsize) fun _ _ => rfl

end Order

section Count

/-- How many links there are on all nodes. -/
def linkCount (nodes : List Node) : Nat :=
  (nodes.map (·.links.length)).sum

/-- The tally `t'` is `t` with `count` more routes. -/
def CountsMore (t' t : Tally) (count : Nat) : Prop :=
  t' = { t with indirectLinks := t.indirectLinks + .ofNat count }

theorem CountsMore.trans {t t' t'' : Tally} {k k' : Nat} (h' : CountsMore t'' t' k')
    (h : CountsMore t' t k) : CountsMore t'' t (k + k') := by
  unfold CountsMore at *
  subst h h'
  simp [UInt32.ofNat_add, UInt32.add_assoc]

theorem linkCount_set {l : Link} {n : Node} :
    ∀ {nodes : List Node} {i : Nat}, nodes[i]? = some n →
      linkCount (nodes.set i (addLink n l)) = linkCount nodes + 1
  | m :: nodes, 0, h => by
    obtain rfl : m = n := by simpa using h
    simp only [List.set_cons_zero, linkCount, List.map_cons, List.sum_cons, addLink,
      List.length_append, List.length_singleton]
    omega
  | m :: nodes, i + 1, h => by
    have hn : nodes[i]? = some n := by simpa using h
    have ih := linkCount_set (l := l) hn
    simp only [linkCount] at ih
    simp only [List.set_cons_succ, linkCount, List.map_cons, List.sum_cons, ih]
    omega

theorem insert_countsMore (capacity : Nat) (state : List Node × Tally) (l : Link) : ∃ count,
    linkCount (insert capacity state l).1 = linkCount state.1 + count
      ∧ CountsMore (insert capacity state l).2 state.2 count := by
  unfold insert
  split
  · exact ⟨0, rfl, by simp [CountsMore]⟩
  · rename_i n hn
    split_ifs
    · exact ⟨0, rfl, by simp [CountsMore]⟩
    · exact ⟨1, linkCount_set hn, rfl⟩

theorem foldl_insert_countsMore (capacity : Nat) :
    ∀ (ls : List Link) (state : List Node × Tally), ∃ count,
      linkCount (ls.foldl (insert capacity) state).1 = linkCount state.1 + count
        ∧ CountsMore (ls.foldl (insert capacity) state).2 state.2 count
  | [], _ => ⟨0, rfl, by simp [CountsMore]⟩
  | l :: ls, state => by
    obtain ⟨k, hk, ht⟩ := insert_countsMore capacity state l
    obtain ⟨k', hk', ht'⟩ := foldl_insert_countsMore capacity ls (insert capacity state l)
    exact ⟨k + k', by rw [List.foldl_cons, hk', hk, Nat.add_assoc], ht'.trans ht⟩

end Count

section Added

variable {nodes : List Node} {i : Nat} {n : Node}

/-- The routes from node `n` in place `i` to the nodes that it has no link to, by target. -/
def missing (nodes : List Node) (i : Nat) (n : Node) : List Link :=
  (List.range nodes.length).filterMap fun target =>
    if n.links.any (·.target = .ofNat target) then none
    else (find? nodes (.ofNat i) (.ofNat target)).map fun route =>
      Link.route (.ofNat i) (.ofNat target) route.1 route.2

/-- Those for which the node has room. -/
def added (nodes : List Node) (i : Nat) (n : Node) : List Link :=
  (missing nodes i n).take (nodes.length - 1 - n.links.length)

def addedCount (nodes : List Node) : Nat :=
  (nodes.mapIdx fun i n => (added nodes i n).length).sum

theorem routesFrom_eq_missing (hsize : nodes.length ≤ UInt32.size) (hn : nodes[i]? = some n) :
    routesFrom nodes i = missing nodes i n := by
  have hi := toNat_of_lt_length hsize (List.getElem?_eq_some_iff.1 hn).1
  refine List.filterMap_congr fun target _ => ?_
  have hlinked : (n.linkTo? (.ofNat target)).isSome
      = n.links.any (·.target = .ofNat target) := by
    rw [Bool.eq_iff_iff, isSome_linkTo?_iff]
    simp
  simp only [candidate?, hi, hn, Option.bind_eq_bind, Option.bind_some, hlinked]
  split_ifs
  · rfl
  · rcases find? nodes (.ofNat i) (.ofNat target) with _ | route <;> rfl

theorem linkCount_mapIdx_fill (capacity : Nat) (ls : Nat → Node → List Link) (nodes : List Node) :
    linkCount (nodes.mapIdx fun i n => fill capacity n (ls i n))
      = linkCount nodes
        + (nodes.mapIdx fun i n => ((ls i n).take (capacity - n.links.length)).length).sum := by
  have hfirst : linkCount nodes = (nodes.zipIdx.map fun x => x.1.links.length).sum := by
    conv_lhs => rw [linkCount, ← List.zipIdx_map_fst 0 nodes, List.map_map]
    rfl
  rw [hfirst, linkCount, List.mapIdx_eq_zipIdx_map, List.mapIdx_eq_zipIdx_map, List.map_map,
    ← List.sum_map_add]
  congr 2
  funext x
  simp [fill]

theorem toNat_add_ofNat {a : UInt32} {k : Nat} (h : a.toNat + k < UInt32.size) :
    (a + .ofNat k).toNat = a.toNat + k := by
  rw [UInt32.toNat_add, UInt32.toNat_ofNat_of_lt' (by omega)]
  exact Nat.mod_eq_of_lt h

/-- What comes of the nodes and the tally when the routes are added. -/
structure Adds (nodes : List Node) (tally : Tally) (out : List Node × Tally) : Prop where
  nodes_eq : out.1 = nodes.mapIdx fun i n => { n with
    links := n.links ++ added nodes i n
    profile := { n.profile with
      links := n.profile.links + .ofNat (added nodes i n).length } }
  tally_eq : out.2 = { tally with
    indirectLinks := tally.indirectLinks + .ofNat (addedCount nodes) }
  /-- Where 32 bits can count the links, they are counted one by one. -/
  links : ∀ {i : Nat} {n n' : Node}, nodes[i]? = some n → out.1[i]? = some n' →
    n.profile.links.toNat + (added nodes i n).length < UInt32.size →
    n'.profile.links.toNat = n.profile.links.toNat + (added nodes i n).length
  indirectLinks : tally.indirectLinks.toNat + addedCount nodes < UInt32.size →
    out.2.indirectLinks.toNat = tally.indirectLinks.toNat + addedCount nodes

/-- A node list is completed by what each node misses and has room for, and by nothing else; adding
each route at once, while others are still looked for, comes to the same. -/
theorem complete_adds (hsize : nodes.length < UInt32.size) (tally : Tally) :
    Adds nodes tally (complete nodes tally)
      ∧ completeAtOnce nodes tally = complete nodes tally := by
  have hle := Nat.le_of_lt hsize
  have hnodes : (complete nodes tally).1
      = nodes.mapIdx fun i n => fill (nodes.length - 1) n (missing nodes i n) := by
    rw [complete_fst_eq hle]
    refine List.ext_getElem? fun i => ?_
    rw [List.getElem?_mapIdx, List.getElem?_mapIdx]
    rcases hn : nodes[i]? with _ | n
    · rfl
    · rw [Option.map_some, Option.map_some, routesFrom_eq_missing hle hn]
  have htally : CountsMore (complete nodes tally).2 tally (addedCount nodes) := by
    obtain ⟨count, hcount, h⟩ :=
      foldl_insert_countsMore (nodes.length - 1) (candidates nodes) (nodes, tally)
    have hall : linkCount (complete nodes tally).1 = linkCount nodes + addedCount nodes := by
      rw [hnodes]
      exact linkCount_mapIdx_fill _ _ _
    obtain rfl : count = addedCount nodes := Nat.add_left_cancel (hcount.symm.trans hall)
    exact h
  refine ⟨⟨hnodes, htally, fun {i n n'} hn hn' hfits => ?_, fun hfits => ?_⟩,
    completeAtOnce_eq hle tally⟩
  · rw [hnodes, List.getElem?_mapIdx, hn] at hn'
    obtain rfl := Option.some.inj hn'
    exact toNat_add_ofNat hfits
  · rw [htally]
    exact toNat_add_ofNat hfits

/-- A host with three GPUs. The first one has a link to itself and room for one route only, the
second one a link that leads nowhere and no room, and the third one an indirect link already. -/
def crowded : List Node :=
  let pci (target : UInt32) : Link := { fabric := .pciExpress, target, weight := 20 }
  let gpu (id links : UInt32) : Profile := { gpuId := id, links }
  let frame : List MemoryBank := [{ heap := .framePublic }]
  [⟨{ links := 3 }, [], [], [pci 1, pci 2, pci 3]⟩,
    ⟨gpu 7 2, frame, [], [pci 0, { target := 1 }]⟩,
    ⟨gpu 8 3, frame, [], [pci 0, { target := 70 }, pci 0]⟩,
    ⟨gpu 9 2, frame, [], [pci 0, { kind := .indirect, target := 2, weight := 5 }]⟩]

theorem complete_adds_crowded : crowded.length < UInt32.size
    ∧ crowded.mapIdx (fun i n => (missing crowded i n).map (·.target)) = [[], [2, 3], [1, 3], [1]]
    ∧ crowded.mapIdx (fun i n => (added crowded i n).map (·.target)) = [[], [2], [], [1]]
    ∧ Adds crowded {} (complete crowded {}) ∧ completeAtOnce crowded {} = complete crowded {} :=
  ⟨by decide, by decide +kernel, by decide +kernel, complete_adds (by decide) {}⟩

end Added

end Route

end ComputeTopology
