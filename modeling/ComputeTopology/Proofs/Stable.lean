import ComputeTopology.Proofs.Replay
import ComputeTopology.Proofs.WellFormed

/-!
# Replays are stable

A replay keeps whatever the machine reported (`Snapshot.SameReports`) and may add routes, if the
snapshot holds no peer link. After one replay there is nothing left to add: the replay of the replay
is the same snapshot (`Snapshot.replayed_replayed`). So it is over any machine whose cache lists 32
bits can count (`published_replay_stable`).
-/

namespace ComputeTopology

namespace Node

/-- The two nodes differ at most in their indirect links and in the count of their links. -/
structure SameReports (n' n : Node) : Prop where
  profile : { n'.profile with links := n.profile.links } = n.profile
  banks : n'.banks = n.banks
  caches : n'.caches = n.caches
  reported : n'.reported = n.reported

theorem reported_direct (n : Node) : n.direct.reported = n.reported :=
  List.filter_filter.trans (by simp only [Bool.and_self, reported])

theorem direct_direct (n : Node) : n.direct.direct = n.direct :=
  direct_of_isDirect (fun l hl => by simpa [Link.isDirect] using (List.mem_filter.1 hl).2) rfl

theorem Surveyed.direct {n : Node} {capacity : Nat} (h : n.Surveyed capacity) :
    n.direct.Surveyed capacity where
  banks := h.banks
  caches := h.caches
  order := by rw [reported_direct]; exact h.order
  room := by rw [reported_direct]; exact h.room

theorem Extends.reported_eq {n' n : Node} (h : n'.Extends n) : n'.reported = n.reported :=
  h.filter_direct

theorem Extends.sameReports {n' n : Node} (h : n'.Extends n.direct) : n'.SameReports n := by
  have hreported := h.reported_eq.trans n.reported_direct
  obtain ⟨routes, -, rfl⟩ := h
  exact ⟨rfl, rfl, rfl, hreported⟩

end Node

namespace Snapshot

/-- The two snapshots differ at most in their indirect links and in the counts of links. -/
structure SameReports (S' S : Snapshot) : Prop where
  platform : S'.platform = S.platform
  generation : S'.generation = S.generation
  length : S'.nodes.length = S.nodes.length
  nodes : ∀ {i : Nat} {n' n : Node}, S'.nodes[i]? = some n' → S.nodes[i]? = some n →
    n'.SameReports n

variable {S : Snapshot}

theorem replayed_extends (S : Snapshot) : NodesExtend S.replayed.nodes (S.nodes.map (·.direct)) := by
  unfold replayed
  simp only
  split_ifs
  · exact .refl _
  · exact Route.complete_extends _ _

theorem map_direct_replayed (S : Snapshot) :
    S.replayed.nodes.map (·.direct) = S.nodes.map (·.direct) := by
  rw [S.replayed_extends.map_direct, List.map_map]
  exact List.map_congr_left fun n _ => n.direct_direct

/-- Whether a snapshot has a peer link shows without its indirect links. -/
theorem hasPeerLink_eq (S : Snapshot) :
    S.hasPeerLink = (S.nodes.map (·.direct)).any (·.reported.any (·.peer)) := by
  rw [hasPeerLink, List.any_map]
  simp only [Function.comp_def, Node.reported_direct]

theorem hasPeerLink_replayed (S : Snapshot) : S.replayed.hasPeerLink = S.hasPeerLink := by
  rw [hasPeerLink_eq, hasPeerLink_eq, map_direct_replayed]

/-- What a replay adds, the next one adds again and nothing else. -/
theorem replayed_replayed (S : Snapshot) : S.replayed.replayed = S.replayed := by
  rw [replayed, map_direct_replayed, hasPeerLink_replayed]
  rfl

theorem replayed_sameReports (S : Snapshot) : S.replayed.SameReports S where
  platform := rfl
  generation := rfl
  length := by rw [S.replayed_extends.length_eq, List.length_map]
  nodes {i n' n} hn' hn := by
    refine (S.replayed_extends.extend hn' ?_).sameReports
    rw [List.getElem?_map, hn]
    rfl

theorem Surveyed.replayed (h : S.Surveyed) : S.replayed.Surveyed where
  count := S.replayed_sameReports.length.trans h.count
  nodes n' hn' := by
    obtain ⟨i, hi⟩ := List.getElem?_of_mem hn'
    have hlt := (List.getElem?_eq_some_iff.1 hi).1
    rw [S.replayed_extends.length_eq] at hlt
    have hext := S.replayed_extends.extend hi (List.getElem?_eq_getElem hlt)
    rw [List.getElem_map] at hext
    exact ((h.nodes _ (List.getElem_mem _)).direct).extends hext

theorem SameReports.caches_lt {S' : Snapshot} (h : S'.SameReports S)
    (hcaches : ∀ m ∈ S.nodes, m.caches.length < UInt32.size) :
    ∀ m ∈ S'.nodes, m.caches.length < UInt32.size := by
  intro m hm
  obtain ⟨i, hi⟩ := List.getElem?_of_mem hm
  have hlt := (List.getElem?_eq_some_iff.1 hi).1
  rw [h.length] at hlt
  rw [(h.nodes hi (List.getElem?_eq_getElem hlt)).caches]
  exact hcaches _ (List.getElem_mem _)

/-- Any publisher that surveys what the snapshot leaves behind publishes `S'`, in one attempt. -/
def ReplaysAs (S S' : Snapshot) : Prop :=
  ∃ tally : Tally, tally.attempts = 1 ∧ ∀ q : Publisher, q.take Capture.machine (.ofSnapshot S)
    = ((.ok (), q.publish S' tally), .ofSnapshot S)

theorem Surveyed.replaysAs (h : S.Surveyed)
    (hcaches : ∀ m ∈ S.nodes, m.caches.length < UInt32.size) : S.ReplaysAs S.replayed := by
  obtain ⟨S₁, tally, heval⟩ := (Capture.ofSnapshot S).exists_attempt 1
  obtain ⟨_, _, _, -, -, -, -, rfl, -⟩ := Capture.exists_reading heval
  rw [h.eq_replayed hcaches heval] at heval
  exact ⟨_, rfl, Capture.take_machine heval⟩

end Snapshot

theorem Snapshot.WellFormed.caches_lt {S : Snapshot} (h : S.WellFormed) :
    ∀ m ∈ S.nodes, m.caches.length < UInt32.size := by
  intro m hm
  obtain ⟨i, hi⟩ := List.getElem?_of_mem hm
  rw [← (h.nodes hi).caches]
  exact UInt32.toNat_lt_size _

/-- Over any machine whose cache lists 32 bits can count, a published snapshot is replayed in one
attempt, with all that the machine reported, and that replay is replayed as it is. A snapshot of one
of the machines of this library is replayed as it is, unless some node said that it has peer links
and the snapshot holds none. -/
theorem published_replay_stable {σ : Type} {M : Machine (StateM σ)} {p p' : Publisher} {s t : σ}
    (htake : p.take M s = ((.ok (), p'), t))
    (hcounts : ∀ e ∈ (Survey.settled p.backoff).transcript M s, e.1.countsCaches = true) :
    ∃ (S S₁ : Snapshot) (tally : Tally) (n : UInt32) (u : σ),
      p' = p.publish S tally ∧ Survey.Accepted M p.backoff s n u (S, tally) t
      ∧ S.ReplaysAs S₁ ∧ S₁.SameReports S ∧ S₁.ReplaysAs S₁
      ∧ (M.Provided → ((∀ e ∈ (Survey.attempt n).transcript M u, e.1.saysPeers = false)
        ∨ S.hasPeerLink = true) → S₁ = S) := by
  obtain ⟨S, tally, hrun, hp'⟩ := Publisher.take_ok htake
  obtain ⟨n, u, hacc⟩ := Survey.exists_accepted hrun
  obtain ⟨before, hbefore⟩ := hacc.transcript_eq
  obtain ⟨r, w, es, hr, -, hplatform, hnodes, -⟩ :=
    Survey.reads_attempt (Survey.reads_of_run_ok _ hacc.run_eq)
  have hS : S.Surveyed := hr.surveyed_snapshot hplatform hnodes
  have hcaches := (Survey.wellFormed_of_attempt hacc.run_eq fun e he => hcounts e (by
    rw [hbefore]
    exact List.mem_append_right _ he)).1.caches_lt
  have hstable := hS.replayed.replaysAs (S.replayed_sameReports.caches_lt hcaches)
  rw [S.replayed_replayed] at hstable
  refine ⟨S, S.replayed, tally, n, u, hp', hacc, hS.replaysAs hcaches, S.replayed_sameReports,
    hstable, fun hM hpeers => ?_⟩
  obtain ⟨r, _, _, hmakes, hany⟩ := hM.candid.exists_makes hacc.run_eq
  refine hmakes.replayed_eq_iff.2 (hpeers.imp (fun hnone => ?_) .inl)
  rw [← hany, List.any_eq_false]
  exact fun e he => by simp [hnone e he]

theorem published_replay_stable_unsupportedPeer :
    let M := Capture.machine
    let p' := (Publisher.take M {} unsupportedPeer).1.2
    Publisher.take M {} unsupportedPeer = ((.ok (), p'), unsupportedPeer)
      ∧ (∀ e ∈ (Survey.settled {}).transcript M unsupportedPeer, e.1.countsCaches = true)
      ∧ ∃ (S S₁ : Snapshot) (tally : Tally) (n : UInt32) (u : Capture),
        p' = Publisher.publish {} S tally
        ∧ Survey.Accepted M {} unsupportedPeer n u (S, tally) unsupportedPeer
        ∧ S.ReplaysAs S₁ ∧ S₁.SameReports S ∧ S₁.ReplaysAs S₁
        ∧ (M.Provided → ((∀ e ∈ (Survey.attempt n).transcript M u, e.1.saysPeers = false)
          ∨ S.hasPeerLink = true) → S₁ = S) := by
  intro M p'
  have hcounts : ∀ e ∈ (Survey.settled {}).transcript M unsupportedPeer,
      e.1.countsCaches = true := by decide +kernel
  obtain ⟨S, tally, heval⟩ := unsupportedPeer.exists_attempt 1
  have htake := Capture.take_machine heval {}
  have hp' : p' = Publisher.publish {} S tally := by
    change (Publisher.take Capture.machine {} unsupportedPeer).1.2 = _
    rw [htake]
  rw [← hp'] at htake
  exact ⟨htake, hcounts, published_replay_stable htake hcounts⟩

end ComputeTopology
