import ComputeTopology.Proofs.Completion
import ComputeTopology.Proofs.Walk

/-!
# Which routes a node gets

Completing a node list goes link by link over all nodes, but what a node gets can be said for each
node alone (`Route.complete_fst_eq`): behind its own links come the routes from it, by target, as
many as there is room for. All of them were looked for in the list as it was before the first one
was added. A node has one route at most to each target (`Route.pairwise_routesFrom`), and none to a
node that it has a link to (`Route.of_mem_routesFrom`).
-/

namespace ComputeTopology.Route

variable {nodes : List Node}

/-- The routes from node `source` wherever it has no link yet, by target. -/
def routesFrom (nodes : List Node) (source : Nat) : List Link :=
  (List.range nodes.length).filterMap fun target =>
    candidate? nodes (.ofNat source) (.ofNat target)

/-- The node with the links `ls` behind its own, as far as there is room. -/
def fill (capacity : Nat) (n : Node) (ls : List Link) : Node :=
  let added := ls.take (capacity - n.links.length)
  { n with
    links := n.links ++ added
    profile := { n.profile with links := n.profile.links + .ofNat added.length } }

theorem fill_nil (capacity : Nat) (n : Node) : fill capacity n [] = n := by
  simp [fill]

theorem fill_full {capacity : Nat} {n : Node} (h : capacity ≤ n.links.length) (ls : List Link) :
    fill capacity n ls = n := by
  simp [fill, Nat.sub_eq_zero_of_le h]

theorem fill_cons {capacity : Nat} {n : Node} (h : n.links.length < capacity) (l : Link)
    (ls : List Link) : fill capacity n (l :: ls) = fill capacity (addLink n l) ls := by
  have hroom : capacity - n.links.length = capacity - (addLink n l).links.length + 1 := by
    simp only [addLink, List.length_append, List.length_singleton]
    omega
  have hcount : ∀ k : Nat, n.profile.links + UInt32.ofNat (k + 1)
      = n.profile.links + 1 + UInt32.ofNat k := fun k => by
    rw [Nat.add_comm, UInt32.ofNat_add, UInt32.add_assoc]
    rfl
  simp only [fill, hroom, List.take_succ_cons, List.length_cons, hcount]
  simp [addLink]

theorem insert_getElem? (capacity : Nat) (state : List Node × Tally) (l : Link) (i : Nat) :
    (insert capacity state l).1[i]? =
      if l.source.toNat = i then state.1[i]?.map fun n => fill capacity n [l] else state.1[i]? := by
  unfold insert
  by_cases hi : l.source.toNat = i
  · subst hi
    rw [if_pos rfl]
    rcases hn : state.1[l.source.toNat]? with _ | n
    · simp [hn]
    · have hlt := (List.getElem?_eq_some_iff.1 hn).1
      simp only [Option.map_some]
      split_ifs with hfull
      · rw [hn, fill_full hfull]
      · rw [fill_cons (Nat.lt_of_not_le hfull), fill_nil]
        simp [hlt]
  · rw [if_neg hi]
    split
    · rfl
    · split_ifs
      · rfl
      · exact List.getElem?_set_ne hi

/-- A node does not see the insertions at other nodes. -/
theorem foldl_insert_getElem? (capacity i : Nat) :
    ∀ (ls : List Link) (state : List Node × Tally),
      (ls.foldl (insert capacity) state).1[i]? = state.1[i]?.map fun n =>
        fill capacity n (ls.filter (·.source.toNat = i))
  | [], state => by simp [fill_nil]
  | l :: ls, state => by
    rw [List.foldl_cons, foldl_insert_getElem? capacity i ls, insert_getElem?, List.filter_cons]
    by_cases hi : l.source.toNat = i
    · simp only [hi, decide_true, if_true, Option.map_map]
      congr 1
      funext n
      by_cases hfull : capacity ≤ n.links.length
      · simp [fill_full hfull]
      · simp [fill_cons (Nat.lt_of_not_le hfull), fill_nil]
    · simp [hi]

structure FromNode (nodes : List Node) (i : Nat) (l : Link) : Prop where
  kind : l.kind = .indirect
  peer : l.peer = false
  source : l.source.toNat = i
  target_lt : l.target.toNat < nodes.length
  target_ne : l.target.toNat ≠ i
  gpu : ∃ n m, nodes[i]? = some n ∧ nodes[l.target.toNat]? = some m
    ∧ (n.isGpu = true ∨ m.isGpu = true)
  unlinked : ∀ n, nodes[i]? = some n → ∀ k ∈ n.links, k.target ≠ l.target

theorem isSome_linkTo?_iff {n : Node} {target : UInt32} :
    (n.linkTo? target).isSome = true ↔ ∃ k ∈ n.links, k.target = target := by
  simp [Node.linkTo?]

/-- A pair of nodes without a link gets the route between them. -/
theorem candidate?_eq_some_iff {source target : UInt32} {l : Link} :
    candidate? nodes source target = some l ↔ ∃ n route, nodes[source.toNat]? = some n
      ∧ (∀ k ∈ n.links, k.target ≠ target) ∧ find? nodes source target = some route
      ∧ l = Link.route source target route.1 route.2 := by
  simp only [candidate?, Option.bind_eq_bind, Option.bind_eq_some_iff]
  constructor
  · rintro ⟨n, hn, h⟩
    split_ifs at h with hlinked
    obtain ⟨route, hroute, h⟩ := Option.bind_eq_some_iff.1 h
    refine ⟨n, route, hn, fun k hk htarget => ?_, hroute, (Option.some.inj h).symm⟩
    exact hlinked (isSome_linkTo?_iff.2 ⟨k, hk, htarget⟩)
  · rintro ⟨n, route, hn, hunlinked, hroute, rfl⟩
    have hlinked : ¬ (n.linkTo? target).isSome = true := by
      rw [isSome_linkTo?_iff]
      rintro ⟨k, hk, htarget⟩
      exact hunlinked k hk htarget
    refine ⟨n, hn, ?_⟩
    rw [if_neg hlinked, hroute]
    rfl

section Size

variable (hsize : nodes.length ≤ UInt32.size)

include hsize

theorem toNat_of_lt_length {i : Nat} (h : i < nodes.length) : (UInt32.ofNat i).toNat = i :=
  UInt32.toNat_ofNat_of_lt' (Nat.lt_of_lt_of_le h hsize)

theorem of_mem_routesFrom {i : Nat} {l : Link} (hi : i < nodes.length)
    (h : l ∈ routesFrom nodes i) : FromNode nodes i l := by
  obtain ⟨target, htarget, hl⟩ := List.mem_filterMap.1 h
  obtain ⟨n, ⟨fabric, weight⟩, hn, hunlinked, hroute, rfl⟩ := candidate?_eq_some_iff.1 hl
  obtain ⟨a, b, _, ha, hb, hjoin, -, -⟩ := find?_eq_some_iff.1 hroute
  have hsource := toNat_of_lt_length hsize hi
  have htarget' := toNat_of_lt_length hsize (List.mem_range.1 htarget)
  rw [hsource] at ha hn
  refine ⟨rfl, rfl, hsource, ?_, fun heq => hjoin.ne ?_, ⟨a, b, ha, hb, hjoin.gpu⟩,
    fun m hm k hk => ?_⟩
  · exact (List.getElem?_eq_some_iff.1 hb).1
  · exact UInt32.toNat_inj.1 (hsource.trans heq.symm)
  · obtain rfl : n = m := Option.some.inj (hn.symm.trans hm)
    exact hunlinked k hk

theorem pairwise_routesFrom (i : Nat) :
    (routesFrom nodes i).Pairwise fun k l => k.target < l.target := by
  refine List.Pairwise.filterMap _ ?_ (List.pairwise_lt_range.imp_of_mem ?_)
    (R := fun a b => a < b ∧ b < nodes.length)
  · rintro a b ⟨hab, hb⟩ k hk l hl
    obtain ⟨_, _, -, -, -, rfl⟩ := candidate?_eq_some_iff.1 hk
    obtain ⟨_, _, -, -, -, rfl⟩ := candidate?_eq_some_iff.1 hl
    rw [UInt32.lt_iff_toNat_lt]
    change (UInt32.ofNat a).toNat < (UInt32.ofNat b).toNat
    rwa [toNat_of_lt_length hsize (Nat.lt_trans hab hb), toNat_of_lt_length hsize hb]
  · exact fun _ hb hab => ⟨hab, List.mem_range.1 hb⟩

theorem filter_candidates {i : Nat} (hi : i < nodes.length) :
    (candidates nodes).filter (·.source.toNat = i) = routesFrom nodes i := by
  -- node `i` gets its routes in one go, when the sources before it are through
  have key : ∀ k ≤ nodes.length,
      ((List.range k).flatMap (routesFrom nodes)).filter (·.source.toNat = i)
        = if i < k then routesFrom nodes i else [] := by
    intro k
    induction k with
    | zero => intro _; simp
    | succ k ih =>
      intro hk
      have hsource : ∀ l ∈ routesFrom nodes k, l.source.toNat = k := fun l hl =>
        (of_mem_routesFrom hsize hk hl).source
      rw [List.range_succ, List.flatMap_append, List.filter_append, ih (Nat.le_of_succ_le hk),
        List.flatMap_singleton]
      rcases Nat.lt_trichotomy i k with hik | rfl | hik
      · rw [if_pos hik, if_pos (Nat.lt_succ_of_lt hik), List.filter_eq_nil_iff.2, List.append_nil]
        intro l hl
        simp [hsource l hl, Nat.ne_of_gt hik]
      · rw [if_neg (Nat.lt_irrefl i), if_pos (Nat.lt_succ_self i), List.nil_append]
        exact List.filter_eq_self.2 fun l hl => by simpa using hsource l hl
      · rw [if_neg (Nat.lt_asymm hik), if_neg (Nat.not_lt.2 hik), List.filter_eq_nil_iff.2,
          List.append_nil]
        intro l hl
        simp [hsource l hl, Nat.ne_of_lt hik]
  exact (key _ (Nat.le_refl _)).trans (if_pos hi)

theorem complete_getElem? (tally : Tally) (i : Nat) : (complete nodes tally).1[i]?
    = nodes[i]?.map fun n => fill (nodes.length - 1) n (routesFrom nodes i) := by
  rw [complete, foldl_insert_getElem?]
  rcases hn : nodes[i]? with _ | n
  · rfl
  · rw [Option.map_some, filter_candidates hsize (List.getElem?_eq_some_iff.1 hn).1,
      Option.map_some]

/-- Every node gets the routes from itself and nothing else. -/
theorem complete_fst_eq (tally : Tally) : (complete nodes tally).1
    = nodes.mapIdx fun i n => fill (nodes.length - 1) n (routesFrom nodes i) := by
  refine List.ext_getElem? fun i => ?_
  rw [complete_getElem? hsize, List.getElem?_mapIdx]

end Size

end ComputeTopology.Route
