import ComputeTopology.Proofs.Candid
import ComputeTopology.Proofs.Captured
import ComputeTopology.Proofs.Surveyed

/-!
# Replayed snapshots

A replay finds the direct links of a snapshot again, as they were (`node_ofNode`). Whether it
looks for routes depends on the peer links that the snapshot holds, where the survey that took the
snapshot went by what the nodes said. The two differ if a node said that it has peer links and none
of them came into the snapshot, all being not supported or beyond the room for links; then the
replay adds whatever routes there are.
-/

namespace ComputeTopology

theorem found_map_some {peer : Bool} {ls : List Link}
    (h : ∀ l ∈ ls, l.kind = .direct ∧ l.peer = peer) : found peer (ls.map some) = ls := by
  induction ls with
  | nil => rfl
  | cons l ls ih =>
    obtain ⟨hkind, hpeer⟩ := h l List.mem_cons_self
    rw [List.map_cons, found_cons_some, ih fun k hk => h k (List.mem_cons_of_mem _ hk)]
    rw [← hkind, ← hpeer]

/-- A table of supported links for which there is room is read to its end. -/
theorem Filled.eq_of_take {capacity held left : Nat} {ls : List Link} {answers : List (Option Link)}
    (h : Filled capacity held left answers) (htake : answers = (ls.map some).take answers.length)
    (hleft : left = ls.length) (hroom : held + ls.length ≤ capacity) : answers = ls.map some := by
  have hcount : answers.countP (·.isSome) = answers.length := by
    rw [htake, List.countP_eq_length]
    intro a ha
    obtain ⟨l, -, rfl⟩ := List.mem_map.1 (List.mem_of_mem_take ha)
    rfl
  have hlen : answers.length = ls.length := by
    have h₁ := h.length_le
    have h₂ := h.full
    omega
  rw [htake, hlen]
  exact List.take_of_length_le (Nat.le_of_eq (List.length_map some))

namespace Node

variable {m : Node} {capacity : Nat}

theorem mem_reported_filter {q : Link → Bool} {l : Link} (h : l ∈ m.reported.filter q) :
    l.kind = .direct ∧ q l = true := by
  obtain ⟨hl, hq⟩ := List.mem_filter.1 h
  exact ⟨by simpa [Link.isDirect] using (List.mem_filter.1 hl).2, hq⟩

theorem Surveyed.length_order (h : m.Surveyed capacity) :
    (m.reported.filter (! ·.peer)).length + (m.reported.filter (·.peer)).length
      = m.reported.length := by
  rw [← List.length_append, ← h.order]

end Node

theorem CapturedNode.ofNode_links (m : Node) :
    (ofNode m).links = (m.reported.filter (! ·.peer)).map some := rfl

theorem CapturedNode.ofNode_peerLinks (m : Node) :
    (ofNode m).peerLinks = (m.reported.filter (·.peer)).map some := rfl

/-- The counts that a replay announces for the links of a node. -/
theorem CapturedNode.counts_ofNode {nodes : UInt32} {m : Node}
    (hm : m.Surveyed (nodes.toNat - 1)) :
    (ofNode m).report.peerLinks.toNat = (m.reported.filter (·.peer)).length
      ∧ (ofNode m).report.profile.links.toNat
        = (m.reported.filter (! ·.peer)).length + (m.reported.filter (·.peer)).length := by
  have hsum := hm.length_order
  have hroom := hm.room
  have hsize := UInt32.toNat_lt_size nodes
  have hpeers : (UInt32.ofNat (ofNode m).peerLinks.length).toNat
      = (m.reported.filter (·.peer)).length := by
    rw [ofNode_peerLinks, List.length_map]
    exact UInt32.toNat_ofNat_of_lt' (by omega)
  have hlinks : (UInt32.ofNat (ofNode m).links.length).toNat
      = (m.reported.filter (! ·.peer)).length := by
    rw [ofNode_links, List.length_map]
    exact UInt32.toNat_ofNat_of_lt' (by omega)
  refine ⟨hpeers, ?_⟩
  change (UInt32.ofNat (ofNode m).links.length + UInt32.ofNat (ofNode m).peerLinks.length).toNat = _
  rw [UInt32.toNat_add, hlinks, hpeers]
  exact Nat.mod_eq_of_lt (show _ < UInt32.size by omega)

theorem toNat_ofNat_length {α : Type} {l : List α} {n : UInt32} (h : l.length ≤ n.toNat) :
    (UInt32.ofNat l.length).toNat = l.length :=
  UInt32.toNat_ofNat_of_lt' (Nat.lt_of_le_of_lt h (UInt32.toNat_lt_size n))

section Node

variable {c : Capture} {m : Node} {r : NodeReading} {nodes i : UInt32} {s s' : Progress}
  {es : List Exchange}

theorem banks_ofNode (hm : m.Surveyed (nodes.toNat - 1)) (hshown : c.Shown (.ofNode m) r)
    (hr : r.Along nodes i s es s') : r.banks = m.banks := by
  have hlen : r.banks.length = m.banks.length := by
    rw [hr.banks_length, hr.profile_counts.1, hshown.report]
    exact toNat_ofNat_length (Nat.le_of_eq hm.banks)
  rw [hshown.banks, hlen]
  exact List.take_length

theorem links_ofNode (hm : m.Surveyed (nodes.toNat - 1)) (hshown : c.Shown (.ofNode m) r)
    (hr : r.Along nodes i s es s') :
    r.links = m.reported ∧ r.report.peersPresent = m.reported.any (·.peer) := by
  set ls := m.reported.filter (! ·.peer) with hls
  set ps := m.reported.filter (·.peer) with hps
  have hsum : ls.length + ps.length = m.reported.length := hm.length_order
  have hroom := hm.room
  obtain ⟨hpeers, hlinks⟩ := CapturedNode.counts_ofNode hm
  rw [← hshown.report, ← hps] at hpeers hlinks
  rw [← hls] at hlinks
  have hstandard : r.standard = ls.map some := by
    refine hr.standard_filled.eq_of_take hshown.standard ?_ ?_
    · rw [hr.profile_counts.2.2, hlinks, hpeers]
      omega
    · omega
  have hfound : found false r.standard = ls := by
    rw [hstandard]
    exact found_map_some fun l hl => by simpa using Node.mem_reported_filter hl
  have hpeer : r.peers = ps.map some := by
    refine hr.peers_filled.eq_of_take hshown.peers hpeers ?_
    rw [hfound]
    omega
  have hfound' : found true r.peers = ps := by
    rw [hpeer]
    exact found_map_some fun l hl => by simpa using Node.mem_reported_filter hl
  refine ⟨?_, ?_⟩
  · rw [NodeReading.links, hfound, hfound', hm.order]
  · have hpresent : r.report.peersPresent = decide (r.report.peerLinks ≠ 0) := by
      rw [hshown.report]
      rfl
    rw [hpresent, Bool.eq_iff_iff, decide_eq_true_iff, Ne, ← UInt32.toNat_inj, hpeers,
      UInt32.toNat_zero, List.length_eq_zero_iff, hps, List.filter_eq_nil_iff, List.any_eq_true]
    simp

/-- The count of the caches has 32 bits, and so a replay finds no more. -/
theorem length_caches_ofNode_lt (hshown : c.Shown (.ofNode m) r) : r.caches.length < UInt32.size := by
  rcases hshown.caches with ⟨-, hlen, -⟩ | ⟨-, h⟩
  · rw [hlen]
    exact UInt32.toNat_lt_size _
  · have hnone : r.caches = [] := h.trans (by split_ifs <;> rfl)
    rw [hnone]
    decide

theorem caches_ofNode (hshown : c.Shown (.ofNode m) r) (hcaches : m.caches.length < UInt32.size) :
    r.caches = m.caches := by
  have hcount : (CapturedNode.ofNode m).report.profile.caches = .ofNat m.caches.length := rfl
  rcases hshown.caches with ⟨-, hlen, htake⟩ | ⟨hzero, h⟩
  · rw [hcount, UInt32.toNat_ofNat_of_lt' hcaches] at hlen
    rw [htake, hlen]
    exact List.take_length
  · rw [hcount, ← UInt32.toNat_inj, UInt32.toNat_ofNat_of_lt' hcaches] at hzero
    rw [List.length_eq_zero_iff.1 hzero]
    exact h.trans (by split_ifs <;> rfl)

/-- A replay finds every node again, without its indirect links. -/
theorem node_ofNode (hm : m.Surveyed (nodes.toNat - 1)) (hcaches : m.caches.length < UInt32.size)
    (hprocessors : c.processors = []) (hshown : c.Shown (.ofNode m) r)
    (hr : r.Along nodes i s es s') : r.node = m.direct := by
  have hprofile : r.profile = (CapturedNode.ofNode m).report.profile := by
    rw [hshown.profile, hprocessors]
    split_ifs <;> rfl
  have hbanks : UInt32.ofNat m.banks.length = m.profile.banks := by
    rw [hm.banks, UInt32.ofNat_toNat]
  rw [NodeReading.node, banks_ofNode hm hshown hr, caches_ofNode hshown hcaches,
    (links_ofNode hm hshown hr).1, hprofile, ← hm.caches]
  simp only [Node.direct, CapturedNode.report, CapturedNode.ofNode, hbanks]
  rfl

end Node

namespace Snapshot

/-- Some node of the snapshot has a peer link. -/
def hasPeerLink (S : Snapshot) : Bool :=
  S.nodes.any (·.reported.any (·.peer))

/-- The snapshot as a replay makes it again. -/
def replayed (S : Snapshot) : Snapshot :=
  let nodes := S.nodes.map (·.direct)
  { S with nodes := if S.hasPeerLink then nodes else (Route.complete nodes {}).1 }

variable {S : Snapshot}

theorem replay_of_eval {S₁ : Snapshot} {tally : Tally}
    (h : (Survey.attempt 1).eval (Capture.ofSnapshot S).answer = .ok (some (S₁, tally))) :
    S.replay = .ok S₁ := by
  rw [replay, Capture.survey, Capture.run_settled h]
  rfl

/-- The reading `r` is one of the capture that replays `S`. -/
structure Replays (S : Snapshot) (r : Reading) : Prop where
  platform : r.platform = S.platform
  length_nodes : r.nodes.length = S.nodes.length
  nodes : ∀ {k : Nat} {rn : NodeReading}, r.nodes[k]? = some rn → ∃ m s es s',
    S.nodes[k]? = some m ∧ (Capture.ofSnapshot S).Shown (.ofNode m) rn
      ∧ rn.Along S.platform.nodes (.ofNat k) s es s'

theorem Surveyed.exists_replays (hS : S.Surveyed) {S₁ : Snapshot} {tally : Tally}
    (h : (Survey.attempt 1).eval (Capture.ofSnapshot S).answer = .ok (some (S₁, tally))) :
    ∃ (r : Reading) (t : Tally), S.Replays r ∧ S₁.generation = S.generation
      ∧ S₁.platform = S.platform ∧ S₁.nodes = (r.outcome t).1 := by
  obtain ⟨r, s, es, hr, hgen, hplatform, hnodes, -, hpl, hshown⟩ := Capture.exists_reading h
  have hplatform' : r.platform = S.platform := by
    rw [hpl]
    simp only [Capture.ofSnapshot, List.length_map, hS.count, UInt32.ofNat_toNat]
  refine ⟨r, s.tally, ⟨hplatform', ?_, fun {k rn} hk => ?_⟩, hgen, hplatform.trans hplatform',
    hnodes⟩
  · rw [hr.length_nodes, hplatform', hS.count]
  · obtain ⟨n, s₁, es₁, s₂, hn, hsh, hal⟩ := hshown hk
    rw [Capture.ofSnapshot, List.getElem?_map, Option.map_eq_some_iff] at hn
    obtain ⟨m, hm, rfl⟩ := hn
    rw [hplatform'] at hal
    exact ⟨m, s₁, es₁, s₂, hm, hsh, hal⟩

theorem Replays.length_caches_lt {r : Reading} (h : S.Replays r) {t : Tally} {n : Node}
    (hn : n ∈ (r.outcome t).1) : n.caches.length < UInt32.size := by
  obtain ⟨k, rn, hrn, routes, -, rfl⟩ := Reading.exists_extends hn
  obtain ⟨_, _, _, _, -, hshown, -⟩ := h.nodes hrn
  exact length_caches_ofNode_lt hshown

/-- Every node is read as it is without its indirect links, and says that it has peer links if it
has any. -/
theorem Replays.map_nodes {r : Reading} (h : S.Replays r) (hS : S.Surveyed)
    (hcaches : ∀ m ∈ S.nodes, m.caches.length < UInt32.size) :
    r.nodes.map (fun rn => (rn.node, rn.report.peersPresent))
      = S.nodes.map fun m => (m.direct, m.reported.any (·.peer)) := by
  refine List.ext_getElem (by simp [h.length_nodes]) fun k h₁ h₂ => ?_
  rw [List.length_map] at h₁
  obtain ⟨m, _, _, _, hm, hshown, hal⟩ := h.nodes (List.getElem?_eq_getElem h₁)
  have hmem := List.mem_of_getElem? hm
  obtain ⟨_, rfl⟩ := List.getElem?_eq_some_iff.1 hm
  rw [List.getElem_map, List.getElem_map, (links_ofNode (hS.nodes _ hmem) hshown hal).2,
    node_ofNode (hS.nodes _ hmem) (hcaches _ hmem) rfl hshown hal]

theorem Replays.outcome_eq {r : Reading} (h : S.Replays r) (hS : S.Surveyed)
    (hcaches : ∀ m ∈ S.nodes, m.caches.length < UInt32.size) (t : Tally) :
    (r.outcome t).1 = S.replayed.nodes := by
  have hmap := h.map_nodes hS hcaches
  have hfound : r.nodes.map (·.node) = S.nodes.map (·.direct) := by
    have hfst := congrArg (List.map Prod.fst) hmap
    rwa [List.map_map, List.map_map] at hfst
  have hpresent : r.peersPresent = S.hasPeerLink := by
    have hany := congrArg (List.any · Prod.snd) hmap
    rwa [List.any_map, List.any_map] at hany
  rw [Reading.outcome, hfound, hpresent, replayed]
  split_ifs
  · rfl
  · exact Route.complete_fst _ _ _

theorem Surveyed.eq_replayed (hS : S.Surveyed)
    (hcaches : ∀ m ∈ S.nodes, m.caches.length < UInt32.size) {S₁ : Snapshot} {tally : Tally}
    (h : (Survey.attempt 1).eval (Capture.ofSnapshot S).answer = .ok (some (S₁, tally))) :
    S₁ = S.replayed := by
  obtain ⟨r, t, hr, hgen, hplatform, hnodes⟩ := hS.exists_replays h
  have hmade := hnodes.trans (hr.outcome_eq hS hcaches t)
  obtain ⟨platform, nodes, generation⟩ := S₁
  obtain rfl : platform = S.platform := hplatform
  obtain rfl : generation = S.generation := hgen
  obtain rfl : nodes = S.replayed.nodes := hmade
  rfl

/-- A replay always succeeds. It finds no node with more caches than 32 bits can count, and makes
the same snapshot again up to the routes. -/
theorem Surveyed.exists_replay (hS : S.Surveyed) :
    ∃ S₁, S.replay = .ok S₁ ∧ (∀ m ∈ S₁.nodes, m.caches.length < UInt32.size)
      ∧ ((∀ m ∈ S.nodes, m.caches.length < UInt32.size) → S₁ = S.replayed) := by
  obtain ⟨S₁, tally, heval⟩ := (Capture.ofSnapshot S).exists_attempt 1
  obtain ⟨r, t, hr, -, -, hnodes⟩ := hS.exists_replays heval
  refine ⟨S₁, replay_of_eval heval, fun m hm => ?_, fun hcaches => hS.eq_replayed hcaches heval⟩
  rw [hnodes] at hm
  exact hr.length_caches_lt hm

end Snapshot

section Accepted

variable {S : Snapshot} {r : Reading} {es : List Exchange} {s : Progress}

/-- The snapshot is what comes of the reading, and nodes without peer links count none. -/
structure Reading.Makes (r : Reading) (es : List Exchange) (s : Progress) (S : Snapshot) :
    Prop where
  along : r.Along es s
  platform : S.platform = r.platform
  nodes : S.nodes = (r.outcome s.tally).1
  candid : ∀ rn ∈ r.nodes, rn.report.peersPresent = false → rn.report.peerLinks = 0

theorem Reading.Makes.surveyed (h : r.Makes es s S) : S.Surveyed :=
  h.along.surveyed_snapshot h.platform h.nodes

theorem Reading.Makes.map_direct (h : r.Makes es s S) :
    S.nodes.map (·.direct) = r.nodes.map (·.node) := by
  rw [h.nodes, r.map_direct_outcome]

/-- No peer link comes of a node that counts none. -/
theorem Reading.Makes.hasPeerLink_eq_false (h : r.Makes es s S) (hpeers : r.peersPresent = false) :
    S.hasPeerLink = false := by
  rw [Snapshot.hasPeerLink, List.any_eq_false]
  intro m hm
  rw [h.nodes] at hm
  obtain ⟨k, rn, hrn, hext⟩ := Reading.exists_extends hm
  obtain ⟨_, _, _, hal, -⟩ := h.along.exists_along hrn
  have hmem := List.mem_of_getElem? hrn
  have hnone := h.candid rn hmem (by simpa using List.any_eq_false.1 hpeers rn hmem)
  have hempty : rn.peers = [] := by
    have hlen := hal.peers_filled.length_le
    rw [hnone] at hlen
    exact List.eq_nil_of_length_eq_zero (Nat.le_zero.1 hlen)
  have hreported : m.reported = found false rn.standard := by
    rw [Node.reported, hext.filter_direct]
    exact rn.reported_node.trans (by rw [NodeReading.links, hempty]; exact List.append_nil _)
  rw [hreported, Bool.not_eq_true, List.any_eq_false]
  exact fun l hl => by simp [(of_mem_found hl).2]

theorem Reading.Makes.replayed_eq_iff (h : r.Makes es s S) :
    S.replayed = S ↔ r.peersPresent = false ∨ S.hasPeerLink = true
      ∨ (Route.complete S.nodes {}).1 = S.nodes := by
  have hiff : S.replayed = S ↔ S.replayed.nodes = S.nodes := by
    obtain ⟨platform, nodes, generation⟩ := S
    simp [Snapshot.replayed]
  rw [hiff]
  rcases hpeers : r.peersPresent with _ | _
  · have hnone := h.hasPeerLink_eq_false hpeers
    have hnodes := h.nodes
    rw [Reading.outcome, hpeers] at hnodes
    simp only [Snapshot.replayed, hnone, h.map_direct, Bool.false_eq_true, if_false, true_or,
      iff_true]
    exact (Route.complete_fst _ _ _).trans hnodes.symm
  · have hnodes : S.nodes = r.nodes.map (·.node) := by
      rw [h.nodes, Reading.outcome, hpeers]
      rfl
    have hdirect : S.nodes.map (·.direct) = S.nodes := h.map_direct.trans hnodes.symm
    rcases hlink : S.hasPeerLink with _ | _ <;> simp [Snapshot.replayed, hlink, hdirect]

theorem Reading.Makes.replay_eq_iff (h : r.Makes es s S) :
    S.replay = .ok S ↔ (∀ m ∈ S.nodes, m.caches.length < UInt32.size)
      ∧ (r.peersPresent = false ∨ S.hasPeerLink = true
        ∨ (Route.complete S.nodes {}).1 = S.nodes) := by
  obtain ⟨S₁, hreplay, hcaches, heq⟩ := h.surveyed.exists_replay
  rw [hreplay, Except.ok.injEq, ← h.replayed_eq_iff]
  constructor
  · rintro rfl
    exact ⟨hcaches, (heq hcaches).symm⟩
  · rintro ⟨hc, hsame⟩
    exact (heq hc).trans hsame

/-- The machines of this library: those that answer from captures, and the driver's tree. -/
inductive Machine.Provided : {σ : Type} → Machine (StateM σ) → Prop
  | captures {σ : Type} {M : Machine (StateM σ)} (current : σ → Capture) (h : M.Serves current) :
    Provided M
  | tree {τ : Type} (fs : Files (StateM τ)) (layout : Layout) (wait : UInt64 → StateM τ Unit) :
    Provided (Sysfs.machine fs layout wait).flat

theorem Machine.Provided.candid {σ : Type} {M : Machine (StateM σ)} (h : M.Provided) :
    M.Candid := by
  cases h with
  | captures current h => exact h.candid
  | tree fs layout wait => exact Sysfs.machine_candid fs layout wait

/-- An attempt that finds a snapshot leaves the reading that the snapshot is made of. -/
theorem Machine.Candid.exists_makes {σ : Type} {M : Machine (StateM σ)} (hM : M.Candid)
    {n : UInt32} {u t : σ} {tally : Tally}
    (h : (Survey.attempt n).run M u = (.ok (some (S, tally)), t)) :
    ∃ r es s, Reading.Makes r es s S
      ∧ ((Survey.attempt n).transcript M u).any (·.1.saysPeers) = r.peersPresent := by
  obtain ⟨r, s, es, hr, hes, hplatform, hnodes, -⟩ :=
    Survey.reads_attempt (Survey.reads_of_run_ok _ h)
  refine ⟨r, es, s, ⟨hr, hplatform, hnodes, fun rn hrn hpeers => ?_⟩, ?_⟩
  · obtain ⟨k, hk⟩ := List.getElem?_of_mem hrn
    obtain ⟨s₁, es₁, s₂, hal, hsub⟩ := hr.exists_along hk
    obtain ⟨_, _, _, _, -, -, -, -, rfl⟩ := hal.exchanges
    have hmem : .told (.report (.ofNat k)) rn.report
        ∈ ((Survey.attempt n).transcript M u).map (·.1) := by
      rw [hes]
      exact List.mem_append_left _ (List.mem_cons_of_mem _ (hsub _ (by simp)))
    obtain ⟨⟨_, w⟩, he, rfl⟩ := List.mem_map.1 hmem
    obtain ⟨v, hv⟩ := Survey.exists_answer_of_mem he
    exact hM hv hpeers
  · have hany := congrArg (List.any · (·.saysPeers)) hes
    rw [List.any_map] at hany
    rw [List.any_append, List.any_cons, hr.any_saysPeers] at hany
    exact hany.trans (by simp [Exchange.saysPeers, Exchange.told])

/-- A published snapshot is replayed as it is if and only if 32 bits can count the caches of every
node and, should a node have said that it has peer links, the snapshot holds one of them or its
nodes leave no route to be added. -/
theorem published_replay_eq_iff {σ : Type} {M : Machine (StateM σ)} (hM : M.Provided)
    {p p' : Publisher} {s t : σ} (htake : p.take M s = ((.ok (), p'), t)) :
    ∃ (S : Snapshot) (tally : Tally) (n : UInt32) (u : σ),
      p' = p.publish S tally ∧ Survey.Accepted M p.backoff s n u (S, tally) t
      ∧ (S.replay = .ok S ↔ (∀ m ∈ S.nodes, m.caches.length < UInt32.size)
        ∧ (((Survey.attempt n).transcript M u).any (·.1.saysPeers) = false
          ∨ S.hasPeerLink = true ∨ (Route.complete S.nodes {}).1 = S.nodes)) := by
  obtain ⟨S, tally, hrun, hp'⟩ := Publisher.take_ok htake
  obtain ⟨n, u, hacc⟩ := Survey.exists_accepted hrun
  obtain ⟨r, es, w, hmakes, hpeers⟩ := hM.candid.exists_makes hacc.run_eq
  exact ⟨S, tally, n, u, hp', hacc, by rw [hpeers]; exact hmakes.replay_eq_iff⟩

/-- Two GPUs on one host, the first with a peer link that is not supported. -/
def unsupportedPeer : Capture :=
  let host : CapturedNode := (CapturedNode.cpu 4
    |>.addLink (some (CapturedNode.directLink 1 .pciExpress 20))
    |>.addLink (some (CapturedNode.directLink 2 .pciExpress 20)))
  let gpu (id : UInt32) : CapturedNode := (CapturedNode.gpu id
    |>.addBank { heap := .framePublic }
    |>.addLink (some (CapturedNode.directLink 0 .pciExpress 20)))
  (Capture.addNode {} host).addNode ((gpu 7).addPeerLink none) |>.addNode (gpu 8)

theorem unsupportedPeer_not_replayed :
    ∃ (p' : Publisher) (S : Snapshot),
      Publisher.take Capture.machine {} unsupportedPeer = ((.ok (), p'), unsupportedPeer)
        ∧ p'.snapshot = .ok S ∧ S.replay ≠ .ok S := by
  have key : ((Survey.attempt 1).eval unsupportedPeer.answer).toOption.join.map
      (fun x => decide (x.1.replay.toOption = some x.1)) = some false := by decide +kernel
  obtain ⟨S, tally, heval⟩ := unsupportedPeer.exists_attempt 1
  refine ⟨_, S, Capture.take_machine heval {}, rfl, fun hreplay => ?_⟩
  rw [heval] at key
  simp [Except.toOption, hreplay] at key

theorem published_replay_eq_iff_unsupportedPeer :
    let M := Capture.machine
    let p' := (Publisher.take M {} unsupportedPeer).1.2
    M.Provided ∧ Publisher.take M {} unsupportedPeer = ((.ok (), p'), unsupportedPeer)
      ∧ ∃ (S : Snapshot) (tally : Tally) (n : UInt32) (u : Capture),
        p' = Publisher.publish {} S tally
        ∧ Survey.Accepted M {} unsupportedPeer n u (S, tally) unsupportedPeer
        ∧ (S.replay = .ok S ↔ (∀ m ∈ S.nodes, m.caches.length < UInt32.size)
          ∧ (((Survey.attempt n).transcript M u).any (·.1.saysPeers) = false
            ∨ S.hasPeerLink = true ∨ (Route.complete S.nodes {}).1 = S.nodes)) := by
  intro M p'
  have hM : M.Provided := .captures id fun _ _ => rfl
  obtain ⟨S, tally, heval⟩ := unsupportedPeer.exists_attempt 1
  have htake := Capture.take_machine heval {}
  have hp' : p' = Publisher.publish {} S tally := by
    change (Publisher.take Capture.machine {} unsupportedPeer).1.2 = _
    rw [htake]
  rw [← hp'] at htake
  exact ⟨hM, htake, published_replay_eq_iff hM htake⟩

end Accepted

end ComputeTopology
