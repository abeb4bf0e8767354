import ComputeTopology.Proofs.History
import ComputeTopology.Proofs.Routed
import ComputeTopology.Proofs.Surveyed

/-!
# Snapshots are well formed

A machine may count what it likes and name what nodes it likes as the ends of its links. What a
survey makes of it is well formed all the same (`Snapshot.WellFormed`): the counts are those of the
lists, a node has fewer links than there are nodes, its direct links come in the order of the two
tables and its routes after them, each to another node of the snapshot that no other of its links
leads to. So is every snapshot that is ever published (`Publisher.history_wellFormed`), since each
of them was found by an attempt of the same history (`Publisher.exists_publishing`).
-/

namespace ComputeTopology

/-- The link can stand for a route from node `i` to another node of the list. -/
structure RouteFormed (nodes : List Node) (i : Nat) (l : Link) : Prop where
  kind : l.kind = .indirect
  peer : l.peer = false
  source : l.source.toNat = i
  target_lt : l.target.toNat < nodes.length
  target_ne : l.target.toNat ≠ i
  gpu : ∃ n m, nodes[i]? = some n ∧ nodes[l.target.toNat]? = some m
    ∧ (n.isGpu = true ∨ m.isGpu = true)

/-- Node `n` is well formed in place `i` of the list. -/
structure NodeFormed (nodes : List Node) (i : Nat) (n : Node) : Prop where
  banks : n.profile.banks.toNat = n.banks.length
  caches : n.profile.caches.toNat = n.caches.length
  links : n.profile.links.toNat = n.links.length
  room : n.links.length ≤ nodes.length - 1
  order : ∃ standard peers routes, n.links = standard ++ peers ++ routes
    ∧ (∀ l ∈ standard, l.kind = .direct ∧ l.peer = false)
    ∧ (∀ l ∈ peers, l.kind = .direct ∧ l.peer = true) ∧ ∀ l ∈ routes, RouteFormed nodes i l
  /-- No other link leads where a route leads. -/
  sole : ∀ {a b : Nat} {k l : Link}, n.links[a]? = some k → n.links[b]? = some l →
    k.kind = .indirect → l.target = k.target → a = b

structure Snapshot.WellFormed (S : Snapshot) : Prop where
  count : S.nodes.length = S.platform.nodes.toNat
  node_iff : ∀ i : UInt32, (∃ n, S.node i = .ok n) ↔ i.toNat < S.platform.nodes.toNat
  nodes : ∀ {i : Nat} {n : Node}, S.nodes[i]? = some n → NodeFormed S.nodes i n
  total : S.totalLinks ≤ S.nodes.length * (S.nodes.length - 1)

def Snapshot.hasRoute (S : Snapshot) : Bool :=
  S.nodes.any (·.links.any (·.isIndirect))

/-- The caches that the machine derives here from its processors, if any, 32 bits can count. -/
def Exchange.countsCaches : Exchange → Bool
  | ⟨.processorCaches _ _, .ok l⟩ => l.length < UInt32.size
  | _ => true

theorem Node.Extends.isGpu_eq {n' n : Node} (h : n'.Extends n) : n'.isGpu = n.isGpu := by
  obtain ⟨routes, -, rfl⟩ := h
  rfl

theorem NodesExtend.exists_isGpu {ns' ns : List Node} (h : NodesExtend ns' ns) {i : Nat} {n : Node}
    (hn : ns[i]? = some n) : ∃ n', ns'[i]? = some n' ∧ n'.isGpu = n.isGpu := by
  have hlt := (List.getElem?_eq_some_iff.1 hn).1
  rw [← h.length_eq] at hlt
  have hn' := List.getElem?_eq_getElem hlt
  exact ⟨_, hn', (h.extend hn' hn).isGpu_eq⟩

theorem Route.FromNode.routeFormed {nodes nodes' : List Node} {i : Nat} {l : Link}
    (h : FromNode nodes i l) (hext : NodesExtend nodes' nodes) : RouteFormed nodes' i l where
  kind := h.kind
  peer := h.peer
  source := h.source
  target_lt := hext.length_eq ▸ h.target_lt
  target_ne := h.target_ne
  gpu := by
    obtain ⟨n, m, hn, hm, hgpu⟩ := h.gpu
    obtain ⟨n', hn', hnGpu⟩ := hext.exists_isGpu hn
    obtain ⟨m', hm', hmGpu⟩ := hext.exists_isGpu hm
    exact ⟨n', m', hn', hm', by rwa [hnGpu, hmGpu]⟩

namespace Reading

variable {es : List Exchange} {r : Reading} {s : Progress}

theorem Along.length_le_size (h : r.Along es s) :
    (r.nodes.map (·.node)).length ≤ UInt32.size := by
  rw [List.length_map, h.length_nodes]
  exact Nat.le_of_lt (UInt32.toNat_lt_size _)

/-- The routes from node `i`, which are looked for unless some node says that it has peer links. -/
def routes (r : Reading) (i : Nat) : List Link :=
  if r.peersPresent then [] else Route.routesFrom (r.nodes.map (·.node)) i

/-- A node that comes of a reading is the node as it was read, filled up with routes. -/
theorem Along.outcome_getElem? (h : r.Along es s) (t : Tally) (i : Nat) : (r.outcome t).1[i]?
    = r.nodes[i]?.map fun rn => Route.fill (r.nodes.length - 1) rn.node (r.routes i) := by
  unfold outcome routes
  rcases r.peersPresent with _ | _
  · simp only [Bool.false_eq_true, if_false]
    rw [Route.complete_fst_eq h.length_le_size, List.getElem?_mapIdx, List.getElem?_map,
      List.length_map, Option.map_map]
    rfl
  · simp only [if_true, Route.fill_nil, List.getElem?_map]

theorem Along.exists_fill (h : r.Along es s) {t : Tally} {i : Nat} {n : Node}
    (hn : (r.outcome t).1[i]? = some n) : ∃ rn, r.nodes[i]? = some rn
      ∧ n = Route.fill (r.nodes.length - 1) rn.node (r.routes i) := by
  rw [h.outcome_getElem?] at hn
  obtain ⟨rn, hrn, rfl⟩ := Option.map_eq_some_iff.1 hn
  exact ⟨rn, hrn, rfl⟩

theorem Along.of_mem_routes (h : r.Along es s) {i : Nat} (hi : i < r.nodes.length) {l : Link}
    (hl : l ∈ r.routes i) : Route.FromNode (r.nodes.map (·.node)) i l := by
  unfold routes at hl
  split_ifs at hl
  · cases hl
  · exact Route.of_mem_routesFrom h.length_le_size (by rwa [List.length_map]) hl

theorem Along.pairwise_routes (h : r.Along es s) (i : Nat) :
    (r.routes i).Pairwise fun k l => k.target < l.target := by
  unfold routes
  split_ifs
  · exact .nil
  · exact Route.pairwise_routesFrom h.length_le_size i

end Reading

/-- The lists of a node that was read are as long as its profile says. -/
structure NodeReading.Counted (rn : NodeReading) : Prop where
  banks : rn.profile.banks.toNat = rn.banks.length
  caches : rn.caches.length < UInt32.size

namespace Route

variable {nodes : List Node} {i : Nat} {rn : NodeReading} {routes : List Link}

theorem length_links_fill_le {capacity : Nat} {n : Node} (h : n.links.length ≤ capacity)
    (ls : List Link) : (fill capacity n ls).links.length ≤ capacity := by
  simp only [fill, List.length_append, List.length_take]
  omega

/-- Where one of the links behind direct ones leads, no other one does. -/
theorem eq_of_target_eq {links added : List Link} (hdirect : ∀ l ∈ links, l.kind = .direct)
    (hunlinked : ∀ l ∈ added, ∀ k ∈ links, k.target ≠ l.target)
    (hpairwise : added.Pairwise fun k l => k.target < l.target) {a b : Nat} {k l : Link}
    (hk : (links ++ added)[a]? = some k) (hl : (links ++ added)[b]? = some l)
    (hkind : k.kind = .indirect) (htarget : l.target = k.target) : a = b := by
  -- neither link is among the direct ones: `k` is indirect, and no added link leads where they do
  have ha : links.length ≤ a := by
    by_contra hlt
    rw [List.getElem?_append_left (Nat.lt_of_not_le hlt)] at hk
    rw [hdirect k (List.mem_of_getElem? hk)] at hkind
    cases hkind
  rw [List.getElem?_append_right ha] at hk
  have hb : links.length ≤ b := by
    by_contra hlt
    rw [List.getElem?_append_left (Nat.lt_of_not_le hlt)] at hl
    exact hunlinked k (List.mem_of_getElem? hk) l (List.mem_of_getElem? hl) htarget
  rw [List.getElem?_append_right hb] at hl
  obtain ⟨ha', rfl⟩ := List.getElem?_eq_some_iff.1 hk
  obtain ⟨hb', rfl⟩ := List.getElem?_eq_some_iff.1 hl
  have hincreasing := List.pairwise_iff_getElem.1 hpairwise
  rcases Nat.lt_trichotomy (a - links.length) (b - links.length) with hlt | heq | hlt
  · have := hincreasing _ _ ha' hb' hlt
    rw [htarget] at this
    exact absurd this (UInt32.lt_irrefl _)
  · omega
  · have := hincreasing _ _ hb' ha' hlt
    rw [htarget] at this
    exact absurd this (UInt32.lt_irrefl _)

theorem nodeFormed_fill {nodes' : List Node} (hcounted : rn.Counted)
    (hroom : rn.links.length ≤ nodes.length - 1) (hsize : nodes.length ≤ UInt32.size)
    (hi : nodes[i]? = some rn.node) (hfrom : ∀ l ∈ routes, FromNode nodes i l)
    (hpairwise : routes.Pairwise fun k l => k.target < l.target) (hext : NodesExtend nodes' nodes) :
    NodeFormed nodes' i (fill (nodes.length - 1) rn.node routes) := by
  have hlength := length_links_fill_le (n := rn.node) hroom routes
  have hdirect : ∀ l ∈ rn.node.links, l.kind = .direct := fun _ hl => kind_of_mem_found hl
  constructor
  case banks => exact hcounted.banks
  case caches => exact UInt32.toNat_ofNat_of_lt' hcounted.caches
  case links =>
    have hlt : (fill (nodes.length - 1) rn.node routes).links.length < UInt32.size := by
      have : 0 < UInt32.size := by decide
      omega
    have hcount : (fill (nodes.length - 1) rn.node routes).profile.links
        = .ofNat (fill (nodes.length - 1) rn.node routes).links.length := by
      simp only [fill, List.length_append, UInt32.ofNat_add]
      rfl
    rw [hcount, UInt32.toNat_ofNat_of_lt' hlt]
  case room => rwa [hext.length_eq]
  case order =>
    refine ⟨_, _, _, rfl, fun l hl => of_mem_found hl, fun l hl => of_mem_found hl, fun l hl => ?_⟩
    exact (hfrom l (List.mem_of_mem_take hl)).routeFormed hext
  case sole =>
    exact fun hk hl hkind htarget => eq_of_target_eq hdirect
      (fun l hl => (hfrom l (List.mem_of_mem_take hl)).unlinked _ hi)
      (hpairwise.sublist (List.take_sublist _ _)) hk hl hkind htarget

end Route

theorem length_flatMap_links_le {capacity : Nat} :
    ∀ {nodes : List Node}, (∀ n ∈ nodes, n.links.length ≤ capacity) →
      (nodes.flatMap (·.links)).length ≤ nodes.length * capacity
  | [], _ => Nat.zero_le _
  | n :: nodes, h => by
    have hn := h n List.mem_cons_self
    have ih := length_flatMap_links_le fun m hm => h m (List.mem_cons_of_mem _ hm)
    rw [List.flatMap_cons, List.length_append, List.length_cons, Nat.succ_mul]
    omega

theorem Snapshot.exists_node_iff (S : Snapshot) (i : UInt32) :
    (∃ n, S.node i = .ok n) ↔ i.toNat < S.nodes.length := by
  unfold Snapshot.node
  rcases hn : S.nodes[i.toNat]? with _ | n
  · simpa using List.getElem?_eq_none_iff.1 hn
  · simpa using (List.getElem?_eq_some_iff.1 hn).1

theorem Reading.Along.wellFormed {es : List Exchange} {r : Reading} {s : Progress} {S : Snapshot}
    {t : Tally} (h : r.Along es s) (hplatform : S.platform = r.platform)
    (hnodes : S.nodes = (r.outcome t).1) (hcounted : ∀ rn ∈ r.nodes, rn.Counted) :
    S.WellFormed := by
  have hcount := (h.surveyed_snapshot hplatform hnodes).count
  have hformed : ∀ {i : Nat} {n : Node}, S.nodes[i]? = some n → NodeFormed S.nodes i n := by
    intro i n hn
    rw [hnodes] at hn ⊢
    obtain ⟨rn, hrn, rfl⟩ := h.exists_fill hn
    obtain ⟨_, _, _, hal, -⟩ := h.exists_along hrn
    have hi := (List.getElem?_eq_some_iff.1 hrn).1
    have hroom := hal.length_links_le
    have hlength : (r.nodes.map (·.node)).length = r.nodes.length := List.length_map _
    rw [← h.length_nodes, ← hlength] at hroom
    rw [← hlength]
    exact Route.nodeFormed_fill (hcounted rn (List.mem_of_getElem? hrn)) hroom h.length_le_size
      (by rw [List.getElem?_map, hrn]; rfl) (fun l hl => h.of_mem_routes hi hl)
      (h.pairwise_routes i) (r.outcome_extends t)
  refine ⟨hcount, fun i => ?_, hformed, length_flatMap_links_le fun n hn => ?_⟩
  · rw [S.exists_node_iff, hcount]
  · obtain ⟨i, hi⟩ := List.getElem?_of_mem hn
    exact (hformed hi).room

theorem Reading.Along.hasRoute_eq_false {es : List Exchange} {r : Reading} {s : Progress}
    {S : Snapshot} {t : Tally} (h : r.Along es s) (hnodes : S.nodes = (r.outcome t).1)
    (hpeers : r.peersPresent = true) : S.hasRoute = false := by
  rw [Snapshot.hasRoute, List.any_eq_false]
  intro n hn
  rw [hnodes] at hn
  obtain ⟨i, hi⟩ := List.getElem?_of_mem hn
  obtain ⟨rn, -, rfl⟩ := h.exists_fill hi
  have hnone : r.routes i = [] := if_pos hpeers
  rw [hnone, Route.fill_nil, Bool.not_eq_true, List.any_eq_false]
  intro l hl
  have hkind : l.kind = .direct := kind_of_mem_found hl
  simp [Link.isIndirect, hkind]

namespace Course

theorem length_caches_lt {i : UInt32} {p : Profile} {l : List Cache} {s s' : Progress}
    {es : List Exchange} (h : (caches i p).Reads s es l s')
    (hcounts : ∀ e ∈ es, e.countsCaches = true) : l.length < UInt32.size := by
  rcases reads_caches h with ⟨-, hlen, -⟩ | ⟨-, -, rfl, -⟩ | ⟨-, -, _, table, -, rfl⟩
  · exact hlen ▸ UInt32.toNat_lt_size _
  · exact (by decide : 0 < UInt32.size)
  · have := hcounts (.told (.processorCaches i table) l) (by simp)
    simpa [Exchange.countsCaches, Exchange.told] using this

end Course

theorem NodeReading.Along.counted {nodes i : UInt32} {s s' : Progress} {es : List Exchange}
    {rn : NodeReading} (h : rn.Along nodes i s es s')
    (hcounts : ∀ e ∈ es, e.countsCaches = true) : rn.Counted where
  banks := h.banks_length.symm
  caches := by
    obtain ⟨es₁, es₂, s₁, s₂, -, hcaches, -, -, rfl⟩ := h.exchanges
    refine Course.length_caches_lt hcaches fun e he => hcounts e ?_
    exact List.mem_append_left _ (List.mem_append_right _ he)

/-- What an attempt finds over any machine is well formed, and it holds a route only if no node
said in that attempt that it has peer links. -/
theorem Survey.wellFormed_of_attempt {σ : Type} {M : Machine (StateM σ)} {number : UInt32}
    {u t : σ} {S : Snapshot} {tally : Tally}
    (h : (attempt number).run M u = (.ok (some (S, tally)), t))
    (hcounts : ∀ e ∈ (attempt number).transcript M u, e.1.countsCaches = true) :
    S.WellFormed ∧ (S.hasRoute = true →
      ∀ e ∈ (attempt number).transcript M u, e.1.saysPeers = false) := by
  obtain ⟨r, s, es, hr, hes, hplatform, hnodes, -⟩ := reads_attempt (reads_of_run_ok _ h)
  refine ⟨hr.wellFormed hplatform hnodes fun rn hrn => ?_, fun hroute e he => ?_⟩
  · obtain ⟨k, hk⟩ := List.getElem?_of_mem hrn
    obtain ⟨_, es₁, _, hal, hsub⟩ := hr.exists_along hk
    refine hal.counted fun e he => ?_
    have hmem : e ∈ ((attempt number).transcript M u).map (·.1) := by
      rw [hes]
      simp [hsub e he]
    obtain ⟨y, hy, rfl⟩ := List.mem_map.1 hmem
    exact hcounts y hy
  · have hnone : r.peersPresent = false := by
      by_contra hpeers
      rw [hr.hasRoute_eq_false hnodes (by simpa using hpeers)] at hroute
      cases hroute
    have hany : (((attempt number).transcript M u).map (·.1)).any (·.saysPeers) = false := by
      rw [hes, List.any_append, List.any_cons, hr.any_saysPeers, hnone]
      rfl
    simpa using List.any_eq_false.1 hany e.1 (List.mem_map_of_mem he)

namespace Publisher

variable {σ : Type} {M : Machine (StateM σ)}

/-- What a history shows was published before it or by one of its events, whose survey found it. -/
theorem exists_publishing :
    ∀ (ops : List Operation) (p : Publisher) (s : σ), ∀ e ∈ history M ops p s,
      ∀ q, e.Shows q → p.current = some q ∨ ∃ x ∈ history M ops p s, x.Succeeds
        ∧ x.after.current = some q ∧ ∃ tally, (Survey.settled x.before.backoff).run M x.source
          = (.ok (some (q.snapshot, tally)), x.sourceAfter)
  | [], _, _, _, he, _, _ => by cases he
  | op :: ops, p, s, e, he, q, hq => by
    -- what a later event finds published was published by the first event or before it
    have hfirst : (eventOf M op p s).after.current = some q → p.current = some q
        ∨ ∃ x ∈ history M (op :: ops) p s, x.Succeeds
          ∧ x.after.current = some q ∧ ∃ tally, (Survey.settled x.before.backoff).run M x.source
            = (.ok (some (q.snapshot, tally)), x.sourceAfter) := by
      intro hafter
      rcases outcome_eventOf (M := M) p s op with ⟨S, tally, hs, hrun, h⟩ | ⟨-, -, -, h⟩ |
        ⟨-, -, -, h⟩ | ⟨-, -, h⟩
      · have hq := hafter
        rw [h] at hq
        cases hq
        exact .inr ⟨_, List.mem_cons_self, hs, hafter, tally, hrun⟩
      · rw [h] at hafter
        exact .inl hafter
      · rw [h] at hafter
        cases hafter
      · rw [h] at hafter
        exact .inl hafter
    rcases List.mem_cons.1 he with rfl | he
    · exact hq.elim .inl hfirst
    · rcases exists_publishing ops _ _ e he q hq with h | ⟨x, hx, h⟩
      · exact hfirst h
      · exact .inr ⟨x, List.mem_cons_of_mem _ hx, h⟩

/-- The publication is well formed and was taken by an event of the history `h`; if it holds a route,
no node said in the accepted attempt that it has peer links. -/
structure Grounded (M : Machine (StateM σ)) (h : List (Event σ)) (q : Publication) : Prop where
  wellFormed : q.snapshot.WellFormed
  taken : ∃ x ∈ h, x.Succeeds ∧ x.after.current = some q ∧ ∃ tally n u,
    Survey.Accepted M x.before.backoff x.source n u (q.snapshot, tally) x.sourceAfter
    ∧ (q.snapshot.hasRoute = true →
      ∀ y ∈ (Survey.attempt n).transcript M u, y.1.saysPeers = false)

/-- Whatever is asked of a new publisher and whatever the machine answers, every snapshot that is
published at some time is well formed. -/
theorem history_wellFormed (M : Machine (StateM σ)) (ops : List Operation) (b : Backoff) (s : σ)
    (hcounts : ∀ x ∈ history M ops { backoff := b } s, x.Succeeds →
      ∀ y ∈ (Survey.settled x.before.backoff).transcript M x.source, y.1.countsCaches = true) :
    ∀ e ∈ history M ops { backoff := b } s, ∀ q, e.Shows q →
      Grounded M (history M ops { backoff := b } s) q := by
  intro e he q hq
  rcases exists_publishing ops _ s e he q hq with h | ⟨x, hx, hs, hafter, tally, hrun⟩
  · cases h
  · obtain ⟨n, u, hacc⟩ := Survey.exists_accepted hrun
    obtain ⟨before, hbefore⟩ := hacc.transcript_eq
    obtain ⟨hformed, hroute⟩ := Survey.wellFormed_of_attempt hacc.run_eq fun y hy =>
      hcounts x hx hs y (by rw [hbefore]; exact List.mem_append_right _ hy)
    exact ⟨hformed, x, hx, hs, hafter, tally, n, u, hacc, hroute⟩

/-- A host and two GPUs that announce more links than there are nodes. One link of the first GPU
names nodes that there are not; the other GPU has room for a route. -/
def boastful : Machine (StateM Unit) where
  answer
    | .generation => return .ok 4
    | .platform => return .ok { nodes := 3 }
    | .report i => return .ok {
        profile := { gpuId := i, banks := 1, caches := 9 * i, links := 40 }
        peersPresent := false
        peerLinks := 0 }
    | .bank _ _ => return .ok { heap := .framePublic }
    | .cache _ _ => return .ok {}
    | .link i k _ =>
      if i = 0 then return .ok (some { fabric := .pciExpress, target := k + 1, weight := 20 })
      else if k = 0 then return .ok (some { fabric := .pciExpress, target := 0, weight := 20 })
      else if k + i = 2 then return .ok (some { source := 9, target := 70 })
      else return .ok none
    | .processors => return .ok []
    | .processorCaches _ _ => return .ok [{}]
  wait _ := return ()

theorem history_wellFormed_boastful :
    let h := history boastful [.take, .release, .acquire] {} ()
    (∀ x ∈ h, x.Succeeds → ∀ y ∈ (Survey.settled x.before.backoff).transcript boastful x.source,
        y.1.countsCaches = true)
      ∧ (∃ e ∈ h, ∃ q, e.Shows q ∧ q.snapshot.hasRoute = true)
      ∧ ∀ e ∈ h, ∀ q, e.Shows q → Grounded boastful h q := by
  intro h
  have hcounts : ∀ x ∈ h, x.Succeeds →
      ∀ y ∈ (Survey.settled x.before.backoff).transcript boastful x.source,
        y.1.countsCaches = true := by
    have key : ∀ x ∈ h, ∀ y ∈ (Survey.settled x.before.backoff).transcript boastful x.source,
        y.1.countsCaches = true := by decide +kernel
    exact fun x hx _ => key x hx
  have hshows : h.any (·.after.current.any (·.snapshot.hasRoute)) = true := by decide +kernel
  obtain ⟨e, he, hq⟩ := List.any_eq_true.1 hshows
  obtain ⟨q, hq, hroute⟩ := (Option.any_eq_true _ _).1 hq
  exact ⟨hcounts, ⟨e, he, q, .inr hq, hroute⟩, history_wellFormed boastful _ {} () hcounts⟩

end Publisher

end ComputeTopology
