import ComputeTopology.Proofs.Skipped
import ComputeTopology.Proofs.WellFormed
import Mathlib.Algebra.Order.BigOperators.Group.List
import Mathlib.Algebra.Order.Group.Nat

/-!
# The tally counts what is published

The tally of an attempt is kept in step with the lists that the attempt makes: each counter has
grown by what the nodes of the reading are worth (`Reading.Along.value_eq`), and adding routes
counts each that finds room (`Reading.countsMore_outcome`). A node has fewer links than there are
nodes, so up to 65536 nodes no counter of links and no sum of them exceeds 32 bits, and the tally
published with a snapshot says exactly what the snapshot holds (`Publisher.history_tallied`).
-/

namespace ComputeTopology

/-- How many links of the snapshot satisfy `q`. -/
def Snapshot.countLinks (S : Snapshot) (q : Link → Bool) : Nat :=
  (S.nodes.flatMap (·.links)).countP q

/-- The tally says, of the snapshot and of the exchanges of the attempt that found it, what there is
to be counted, and its total is the sum of its counts of links. -/
structure Tally.Counts (t : Tally) (S : Snapshot) (es : List Exchange) : Prop where
  nodes : t.nodes.toNat = S.nodes.length
  banks : t.banks.toNat = (S.nodes.flatMap (·.banks)).length
  caches : t.caches.toNat = (S.nodes.flatMap (·.caches)).length
  directLinks : t.directLinks.toNat = S.countLinks (·.isFrom false)
  peerLinks : t.peerLinks.toNat = S.countLinks (·.isFrom true)
  indirectLinks : t.indirectLinks.toNat = S.countLinks (·.isIndirect)
  skippedLinks : t.skippedLinks.toNat = es.countP (·.isUnsupported)
  totalLinks : t.totalLinks.toNat = S.totalLinks
  sum : t.totalLinks.toNat = t.directLinks.toNat + t.peerLinks.toNat + t.indirectLinks.toNat
  profiles : S.totalLinks = (S.nodes.map (·.profile.links.toNat)).sum

/-- 32 bits can count what the links do not bound. -/
structure Snapshot.Countable (S : Snapshot) (es : List Exchange) : Prop where
  nodes : S.platform.nodes.toNat ≤ 65536
  banks : (S.nodes.flatMap (·.banks)).length < UInt32.size
  caches : (S.nodes.flatMap (·.caches)).length < UInt32.size
  unsupported : es.countP (·.isUnsupported) < UInt32.size

/-- Every link is counted in one of three ways. -/
theorem countP_links (ls : List Link) :
    ls.countP (·.isFrom false) + ls.countP (·.isFrom true) + ls.countP (·.isIndirect)
      = ls.length := by
  induction ls with
  | nil => rfl
  | cons l ls ih =>
    have hone : (if l.isFrom false then 1 else 0) + (if l.isFrom true then 1 else 0)
        + (if l.isIndirect then 1 else 0) = 1 := by
      cases hkind : l.kind <;> cases hpeer : l.peer <;>
        simp [Link.isFrom, Link.isDirect, Link.isIndirect, hkind, hpeer]
    simp only [List.countP_cons, List.length_cons]
    omega

namespace Reading

variable {r : Reading} {t : Tally} {es : List Exchange} {s : Progress}

/-- What routes do not change is that of the nodes as they were read. -/
theorem map_outcome {β : Type} {f : Node → β} (hf : ∀ n, f n.direct = f n) :
    (r.outcome t).1.map f = r.nodes.map fun rn => f rn.node := by
  have hdirect := congrArg (List.map f) (r.map_direct_outcome t)
  rw [List.map_map, List.map_map] at hdirect
  rw [← List.map_congr_left fun n _ => hf n]
  exact hdirect

theorem countP_outcome {q : Link → Bool} (hq : ∀ l, q l = true → l.isDirect = true) :
    ((r.outcome t).1.flatMap (·.links)).countP q
      = (r.nodes.map fun rn => rn.links.countP q).sum := by
  have hdirect : ∀ n : Node, n.direct.links.countP q = n.links.countP q := fun n => by
    rw [Node.direct, List.countP_filter]
    exact List.countP_congr fun l _ => by simpa using hq l
  rw [List.countP_flatMap]
  exact congrArg List.sum (map_outcome (f := fun n => n.links.countP q) hdirect)

theorem countP_isFrom_outcome (peer : Bool) :
    ((r.outcome t).1.flatMap (·.links)).countP (·.isFrom peer)
      = (r.nodes.map (Tally.Counter.links peer).amount).sum := by
  rw [funext (Tally.Counter.amount_links peer)]
  exact countP_outcome fun l hl => (Bool.and_eq_true_iff.1 hl).1

theorem linkCount_nodes (r : Reading) : Route.linkCount (r.nodes.map (·.node))
    = (r.nodes.map (Tally.Counter.links false).amount).sum
      + (r.nodes.map (Tally.Counter.links true).amount).sum := by
  have hlinks : ∀ rn : NodeReading, rn.links.length
      = (Tally.Counter.links false).amount rn + (Tally.Counter.links true).amount rn := fun rn => by
    have hnone : rn.links.countP (·.isIndirect) = 0 := List.countP_eq_zero.2 fun l hl => by
      simp [Link.isIndirect, kind_of_mem_found hl]
    rw [Tally.Counter.amount_links, Tally.Counter.amount_links, ← countP_links, hnone,
      Nat.add_zero]
  rw [Route.linkCount, List.map_map, ← List.sum_map_add]
  exact congrArg List.sum (List.map_congr_left fun rn _ => hlinks rn)

/-- Completing a reading adds links and counts them, and counts nothing else. -/
theorem countsMore_outcome (r : Reading) (t : Tally) : Route.CountsMore (r.outcome t).2 t
    (((r.outcome t).1.flatMap (·.links)).countP (·.isIndirect)) := by
  have key : ∃ count,
      Route.linkCount (r.outcome t).1 = Route.linkCount (r.nodes.map (·.node)) + count
        ∧ Route.CountsMore (r.outcome t).2 t count := by
    unfold outcome
    split_ifs
    · exact ⟨0, rfl, by simp [Route.CountsMore]⟩
    · exact Route.foldl_insert_countsMore _ _ (_, t)
  obtain ⟨count, hcount, hmore⟩ := key
  have hlinks := countP_links ((r.outcome t).1.flatMap (·.links))
  rw [countP_isFrom_outcome, countP_isFrom_outcome, List.length_flatMap] at hlinks
  rw [linkCount_nodes] at hcount
  obtain rfl : count = ((r.outcome t).1.flatMap (·.links)).countP (·.isIndirect) :=
    Nat.add_left_cancel (hcount.symm.trans hlinks.symm)
  exact hmore

/-- A counter that 32 bits can hold is exact. -/
theorem Along.toNat_value (h : r.Along es s) (k : Tally.Counter)
    (hlt : (r.nodes.map k.amount).sum < UInt32.size) :
    (k.value s.tally).toNat = (r.nodes.map k.amount).sum := by
  rw [h.value_eq k, UInt32.toNat_ofNat_of_lt' hlt]

theorem Along.indirectLinks_eq (h : r.Along es s) : s.tally.indirectLinks = 0 := by
  refine (h.value_eq .routes).trans ?_
  rw [funext Tally.Counter.amount_routes]
  simp

theorem length_banks_outcome : ((r.outcome t).1.flatMap (·.banks)).length
    = (r.nodes.map Tally.Counter.banks.amount).sum := by
  rw [List.length_flatMap, funext Tally.Counter.amount_banks]
  exact congrArg List.sum (map_outcome (f := fun n => n.banks.length) fun _ => rfl)

theorem length_caches_outcome : ((r.outcome t).1.flatMap (·.caches)).length
    = (r.nodes.map Tally.Counter.caches.amount).sum := by
  rw [List.length_flatMap, funext Tally.Counter.amount_caches]
  exact congrArg List.sum (map_outcome (f := fun n => n.caches.length) fun _ => rfl)

end Reading

theorem Snapshot.countLinks_le (S : Snapshot) (q : Link → Bool) : S.countLinks q ≤ S.totalLinks :=
  List.countP_le_length

theorem Snapshot.totalLinks_eq (S : Snapshot) : S.totalLinks = S.countLinks (·.isFrom false)
    + S.countLinks (·.isFrom true) + S.countLinks (·.isIndirect) :=
  (countP_links _).symm

/-- A well formed snapshot of at most 65536 nodes has fewer than 2 ^ 32 links. -/
theorem Snapshot.WellFormed.totalLinks_lt {S : Snapshot} (h : S.WellFormed)
    (hsize : S.platform.nodes.toNat ≤ 65536) : S.totalLinks < UInt32.size := by
  rw [← h.count] at hsize
  have hle := Nat.le_trans h.total (Nat.mul_le_mul hsize (Nat.sub_le_sub_right hsize 1))
  exact Nat.lt_of_le_of_lt hle (by decide)

theorem Snapshot.WellFormed.totalLinks_eq_sum {S : Snapshot} (h : S.WellFormed) :
    S.totalLinks = (S.nodes.map (·.profile.links.toNat)).sum := by
  rw [Snapshot.totalLinks, List.length_flatMap]
  refine congrArg List.sum (List.map_congr_left fun n hn => ?_)
  obtain ⟨i, hi⟩ := List.getElem?_of_mem hn
  exact (h.nodes hi).links.symm

theorem Tally.toNat_totalLinks {t : Tally}
    (h : t.directLinks.toNat + t.peerLinks.toNat + t.indirectLinks.toNat < UInt32.size) :
    t.totalLinks.toNat = t.directLinks.toNat + t.peerLinks.toNat + t.indirectLinks.toNat := by
  have hfirst := Nat.lt_of_le_of_lt (Nat.le_add_right _ _) h
  rw [Tally.totalLinks, UInt32.toNat_add, UInt32.toNat_add, Nat.mod_eq_of_lt hfirst,
    Nat.mod_eq_of_lt h]

section Outcome

variable {r : Reading} {s : Progress} {es : List Exchange} {S : Snapshot} (h : r.Along es s)
  (hnodes : S.nodes = (r.outcome s.tally).1) (htotal : S.totalLinks < UInt32.size)

include h hnodes htotal

theorem Reading.Along.toNat_links (peer : Bool) :
    ((Tally.Counter.links peer).value s.tally).toNat = S.countLinks (·.isFrom peer) := by
  have hfrom : S.countLinks (·.isFrom peer)
      = (r.nodes.map (Tally.Counter.links peer).amount).sum := by
    rw [Snapshot.countLinks, hnodes, countP_isFrom_outcome]
  rw [hfrom]
  exact h.toNat_value _ (hfrom ▸ Nat.lt_of_le_of_lt (S.countLinks_le _) htotal)

theorem Reading.Along.toNat_indirectLinks :
    (r.outcome s.tally).2.indirectLinks.toNat = S.countLinks (·.isIndirect) := by
  rw [r.countsMore_outcome, ← hnodes, h.indirectLinks_eq, UInt32.zero_add]
  exact UInt32.toNat_ofNat_of_lt' (Nat.lt_of_le_of_lt (S.countLinks_le _) htotal)

end Outcome

namespace Survey

variable {σ : Type} {M : Machine (StateM σ)} {number : UInt32} {S : Snapshot} {tally : Tally}

/-- What an attempt counts is what it finds, as long as 32 bits can count it. -/
theorem counts_of_reads {es : List Exchange} (h : (attempt number).Reads es (some (S, tally)))
    (hsize : S.Countable es) : tally.Counts S es := by
  obtain ⟨r, s, _, hr, -, hplatform, hnodes, htally⟩ := reads_attempt h
  have hbanks := r.length_banks_outcome (t := s.tally)
  have hcaches := r.length_caches_outcome (t := s.tally)
  rw [← hnodes] at hbanks hcaches
  have hcounted : ∀ rn ∈ r.nodes, rn.Counted := fun rn hrn => by
    refine ⟨(hr.surveyed hrn).banks.symm, Nat.lt_of_le_of_lt ?_ (hcaches ▸ hsize.caches)⟩
    exact List.single_le_sum (fun _ _ => Nat.zero_le _) _
      (List.mem_map.2 ⟨rn, hrn, Tally.Counter.amount_caches rn⟩)
  have hformed := hr.wellFormed hplatform hnodes hcounted
  have htotal := hformed.totalLinks_lt hsize.nodes
  have hindirect : tally.indirectLinks.toNat = S.countLinks (·.isIndirect) := by
    rw [htally]
    exact hr.toNat_indirectLinks hnodes htotal
  -- completing the reading leaves the other counters as they were
  rw [r.countsMore_outcome] at htally
  have hdirect : tally.directLinks.toNat = S.countLinks (·.isFrom false) := by
    rw [htally]
    exact hr.toNat_links hnodes htotal false
  have hpeers : tally.peerLinks.toNat = S.countLinks (·.isFrom true) := by
    rw [htally]
    exact hr.toNat_links hnodes htotal true
  have hsum := S.totalLinks_eq
  rw [← hdirect, ← hpeers, ← hindirect] at hsum
  have hall := Tally.toNat_totalLinks (t := tally) (hsum ▸ htotal)
  constructor
  case nodes =>
    have hlength : (r.nodes.map Tally.Counter.nodes.amount).sum = S.nodes.length := by
      rw [hnodes, r.length_outcome, funext Tally.Counter.amount_nodes]
      simp
    rw [htally, ← hlength]
    exact hr.toNat_value .nodes (by rw [hlength, hformed.count]; exact UInt32.toNat_lt_size _)
  case banks =>
    rw [htally, hbanks]
    exact hr.toNat_value .banks (hbanks ▸ hsize.banks)
  case caches =>
    rw [htally, hcaches]
    exact hr.toNat_value .caches (hcaches ▸ hsize.caches)
  case directLinks => exact hdirect
  case peerLinks => exact hpeers
  case indirectLinks => exact hindirect
  case skippedLinks =>
    rw [(reads_attempt_links h).2]
    exact UInt32.toNat_ofNat_of_lt' hsize.unsupported
  case totalLinks => rw [hall, hsum]
  case sum => exact hall
  case profiles => exact hformed.totalLinks_eq_sum

theorem attempts_of_run {u t : σ} (h : (attempt number).run M u = (.ok (some (S, tally)), t)) :
    tally.attempts = number := by
  obtain ⟨_, _, _, -, -, -, -, rfl⟩ := reads_attempt (reads_of_run_ok _ h)
  rfl

end Survey

namespace Publisher

variable {σ : Type} {M : Machine (StateM σ)}

/-- Whenever a survey publishes a snapshot, the tally published with it counts what the snapshot
holds and which entries the accepted attempt skipped, and nothing of the attempts before. -/
theorem history_tallied (M : Machine (StateM σ)) (ops : List Operation) (b : Backoff) (s : σ)
    {e : Event σ} (he : e ∈ history M ops { backoff := b } s) (hs : e.Succeeds) :
    ∃ q tally, e.after.current = some q ∧ e.after.tally = some tally
      ∧ (∃ n u, Survey.Accepted M e.before.backoff e.source n u (q.snapshot, tally) e.sourceAfter)
      ∧ ∀ n u,
        Survey.Accepted M e.before.backoff e.source n u (q.snapshot, tally) e.sourceAfter →
        q.snapshot.Countable (((Survey.attempt n).transcript M u).map (·.1)) →
          tally.Counts q.snapshot (((Survey.attempt n).transcript M u).map (·.1)) := by
  obtain ⟨S, tally, hrun, hafter⟩ := (outcome_of_mem he).after_of_succeeds hs
  refine ⟨⟨e.before.issued, S⟩, tally, by rw [hafter]; rfl, by rw [hafter]; rfl,
    Survey.exists_accepted hrun, fun n u hacc hsize => ?_⟩
  exact Survey.counts_of_reads (Survey.reads_of_run_ok _ hacc.run_eq) hsize

theorem history_tallied_boastful :
    let e := eventOf boastful .take {} ()
    let es := ((Survey.attempt 1).transcript boastful ()).map (·.1)
    e ∈ history boastful [.take] {} () ∧ e.Succeeds
      ∧ ∃ q tally, e.after.current = some q ∧ e.after.tally = some tally
        ∧ Survey.Accepted boastful {} () 1 () (q.snapshot, tally) ()
        ∧ q.snapshot.Countable es ∧ tally.Counts q.snapshot es
        ∧ tally.indirectLinks = 1 ∧ tally.skippedLinks = 39 := by
  intro e es
  have hs : e.Succeeds := ⟨.inl rfl, by decide +kernel⟩
  have he : e ∈ history boastful [.take] {} () := List.mem_cons_self
  obtain ⟨q, tally, hq, ht, ⟨n, u, hacc⟩, hcounts⟩ := history_tallied boastful _ _ _ he hs
  have htally : e.after.tally.all (fun t =>
      t.attempts = 1 ∧ t.indirectLinks = 1 ∧ t.skippedLinks = 39) = true := by decide +kernel
  have hsizes : e.after.current.all (fun q => q.snapshot.platform.nodes.toNat ≤ 65536
      ∧ (q.snapshot.nodes.flatMap (·.banks)).length < UInt32.size
      ∧ (q.snapshot.nodes.flatMap (·.caches)).length < UInt32.size) = true := by decide +kernel
  rw [ht, Option.all_some, decide_eq_true_iff] at htally
  rw [hq, Option.all_some, decide_eq_true_iff] at hsizes
  obtain rfl : n = 1 := (Survey.attempts_of_run hacc.run_eq).symm.trans htally.1
  have hcountable : q.snapshot.Countable es :=
    ⟨hsizes.1, hsizes.2.1, hsizes.2.2, by decide +kernel⟩
  exact ⟨he, hs, q, tally, hq, ht, hacc, hcountable, hcounts 1 () hacc hcountable, htally.2⟩

end Publisher

end ComputeTopology
