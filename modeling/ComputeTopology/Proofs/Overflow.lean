import ComputeTopology.Proofs.Tallied

/-!
# Counting in 32 bits

What an attempt counts, and when, can be read off its exchanges (`marks`): an answer from a link
table at once, a node with its banks and caches when the next thing is asked for. A counter fits if
none of these marks carries it beyond 32 bits (`Tally.Counter.Fits`), which depends on their sum
alone (`Tally.Counter.fits_iff`).

Whatever is stored bounds what is counted of it: there are at most 65536 nodes, and a node has fewer
links than there are nodes, whether they were found or are routes (`Route.fits_complete`). Entries
that are skipped are not stored, and every node can announce nearly 2 ^ 32 of them, so their counter
fits only as long as there are fewer than 2 ^ 32 (`Survey.attempt_fits_iff`).
-/

namespace ComputeTopology

namespace Tally

/-- What is counted at once: an answer from a link table, or a node with its banks and caches. -/
inductive Mark
  | answer (peer : Bool) (a : Option Link)
  | node (banks caches : Nat)

def mark (t : Tally) : Mark → Tally
  | .answer peer a => t.countAnswer peer a
  | .node banks caches => t.countNode banks caches

namespace Counter

variable (k : Counter)

def step : Mark → Nat
  | .answer peer a => if k.counts peer a then 1 else 0
  | .node banks caches => k.node banks caches

/-- No mark carries the counter beyond 32 bits. -/
def Fits : Tally → List Mark → Prop
  | _, [] => True
  | t, m :: ms => (k.value t).toNat + k.step m < UInt32.size ∧ Fits (t.mark m) ms

/-- The counters of what an attempt reads and keeps. -/
def stored : List Counter :=
  [nodes, banks, caches, links false, links true]

theorem value_mark (m : Mark) (t : Tally) : k.value (t.mark m) = k.value t + .ofNat (k.step m) := by
  cases m with
  | answer peer a =>
    rw [mark, k.value_answer, step]
    cases k.counts peer a <;> rfl
  | node banks caches => exact k.value_node banks caches t

theorem value_marks : ∀ {ms : List Mark} {t : Tally},
    k.value (ms.foldl mark t) = k.value t + .ofNat (ms.map k.step).sum
  | [], t => (UInt32.add_zero _).symm
  | m :: ms, t => by
    rw [List.foldl_cons, value_marks, value_mark, List.map_cons, List.sum_cons, UInt32.ofNat_add,
      UInt32.add_assoc]

/-- The counter never gets smaller, so it fits if its last value does. -/
theorem fits_iff : ∀ {ms : List Mark} {t : Tally},
    k.Fits t ms ↔ (k.value t).toNat + (ms.map k.step).sum < UInt32.size
  | [], t => iff_of_true trivial (UInt32.toNat_lt_size _)
  | m :: ms, t => by
    rw [Fits, fits_iff, value_mark, List.map_cons, List.sum_cons, ← Nat.add_assoc]
    constructor
    · rintro ⟨hm, hms⟩
      rwa [Route.toNat_add_ofNat hm] at hms
    · intro h
      have hm := Nat.lt_of_le_of_lt (Nat.le_add_right _ _) h
      exact ⟨hm, by rwa [Route.toNat_add_ofNat hm]⟩

theorem fits_empty_iff {ms : List Mark} : k.Fits {} ms ↔ (ms.map k.step).sum < UInt32.size := by
  rw [fits_iff, k.value_empty, UInt32.toNat_zero, Nat.zero_add]

end Counter

end Tally

section Marks

/-- A node that was asked about and has still to be counted, with its banks and caches so far. -/
abbrev Pending := Option (Nat × Nat)

def Pending.marks (pending : Pending) : List Tally.Mark :=
  (pending.map fun n => .node n.1 n.2).toList

namespace Exchange

/-- How many memory banks the answer adds to its node. -/
def banks : Exchange → Nat
  | ⟨.bank _ _, .ok _⟩ => 1
  | _ => 0

/-- How many caches the answer adds to its node. -/
def caches : Exchange → Nat
  | ⟨.cache _ _, .ok _⟩ => 1
  | ⟨.processorCaches _ _, .ok found⟩ => found.length
  | _ => 0

/-- How many nodes the answer says there are. -/
def nodes : Exchange → Nat
  | ⟨.platform, .ok platform⟩ => platform.nodes.toNat
  | _ => 0

/-- The link entry is answered with no link. -/
def isSkipped : Exchange → Bool
  | ⟨.link _ _ _, .ok none⟩ => true
  | _ => false

/-- What is counted at the exchange: the node that its probe leaves behind, or its answer. -/
def marks (pending : Pending) : Exchange → List Tally.Mark
  | ⟨.report _, _⟩ | ⟨.generation, _⟩ => pending.marks
  | ⟨.link _ _ peer, .ok a⟩ => [.answer peer a]
  | _ => []

/-- The node that has still to be counted after the exchange. -/
def after (pending : Pending) (e : Exchange) : Pending :=
  match e.probe with
  | .report _ => some (0, 0)
  | .generation => none
  | _ => pending.map fun n => (n.1 + e.banks, n.2 + e.caches)

end Exchange

/-- What is counted in the course of the exchanges. -/
def marks : Pending → List Exchange → List Tally.Mark
  | _, [] => []
  | pending, e :: es => e.marks pending ++ marks (e.after pending) es

variable {pending : Pending} {path es : List Exchange}

/-- A run that ends with a fault has counted so far what the path counts along which it went. -/
theorem Follows.marks_isPrefix (h : Follows path es) : marks pending es <+: marks pending path := by
  have hcut : ∀ {before rest : List Exchange} {p : Probe} {v : p.Answer} {f : Fault} {pending},
      marks pending (before ++ [⟨p, .error f⟩])
        <+: marks pending (before ++ .told p v :: rest) := by
    intro before rest p v f
    induction before with
    | nil =>
      intro pending
      simp only [List.nil_append, marks, List.append_nil]
      cases p <;> first | exact List.nil_prefix | exact List.prefix_append _ _
    | cons e before ih => exact (List.prefix_append_right_inj _).2 ih
  rcases h with _ | ⟨_, rfl⟩
  · exact List.prefix_rfl
  · exact hcut

/-- Of what nodes consist of no more is counted than was answered. -/
theorem sum_step_marks_le {k : Tally.Counter} (hanswer : ∀ peer a, k.counts peer a = false)
    (hadd : ∀ b c b' c', k.node (b + b') (c + c') = k.node b c + k.node b' c') :
    ∀ {es : List Exchange} {pending : Pending}, ((marks pending es).map k.step).sum
      ≤ (pending.elim 0 fun n => k.node n.1 n.2) + (es.map fun e => k.node e.banks e.caches).sum
  | [], _ => Nat.zero_le _
  | e :: es, pending => by
    have ih : ((marks (e.after pending) es).map k.step).sum ≤ _ := sum_step_marks_le hanswer hadd
    have hzero : k.node 0 0 = 0 := by simpa using hadd 0 0 0 0
    have hfirst : ((e.marks pending).map k.step).sum
          + ((e.after pending).elim 0 fun n => k.node n.1 n.2)
        ≤ (pending.elim 0 fun n => k.node n.1 n.2) + k.node e.banks e.caches := by
      obtain ⟨p, a⟩ := e
      cases p with
      | report i =>
        cases pending <;>
          simp [Exchange.marks, Pending.marks, Exchange.after, Tally.Counter.step, hzero]
      | generation =>
        cases pending <;> simp [Exchange.marks, Pending.marks, Exchange.after, Tally.Counter.step]
      | link i l peer =>
        cases a <;> cases pending <;>
          simp [Exchange.marks, Exchange.after, Tally.Counter.step, hanswer, hadd]
      | _ => cases pending <;> simp [Exchange.marks, Exchange.after, hadd]
    rw [marks, List.map_append, List.sum_append, List.map_cons, List.sum_cons]
    omega

theorem sum_step_skipped : ∀ {es : List Exchange} {pending : Pending},
    ((marks pending es).map Tally.Counter.skipped.step).sum = es.countP (·.isSkipped)
  | [], _ => rfl
  | e :: es, pending => by
    have hfirst : ((e.marks pending).map Tally.Counter.skipped.step).sum
        = if e.isSkipped then 1 else 0 := by
      obtain ⟨p, a⟩ := e
      cases p with
      | report i => cases pending <;> rfl
      | generation => cases pending <;> rfl
      | link i l peer =>
        rcases a with f | a
        · rfl
        · cases a <;> rfl
      | _ => rfl
    rw [marks, List.map_append, List.sum_append, List.countP_cons, hfirst, sum_step_skipped,
      Nat.add_comm]

end Marks

section Reading

variable {s s' : Progress} {es rest : List Exchange} {i nodes : UInt32} {pending : Pending}

/-- A table of entries, each of which is counted as its answer says and adds as much to its node. -/
theorem marks_entries {α : Type} (told : UInt32 → α → Exchange) (made : α → List Tally.Mark)
    (banks caches : Nat) (hmarks : ∀ k a pending, (told k a).marks pending = made a)
    (hafter : ∀ k a b c, (told k a).after (some (b, c)) = some (b + banks, c + caches)) :
    ∀ {l : List α} {index b c : Nat},
      marks (some (b, c)) ((l.zipIdx index).map (fun x => told (.ofNat x.2) x.1) ++ rest)
        = l.flatMap made
          ++ marks (some (b + l.length * banks, c + l.length * caches)) rest
  | [], _, _, _ => by simp
  | a :: l, index, b, c => by
    rw [List.zipIdx_cons, List.map_cons, List.cons_append, marks, hmarks, hafter,
      marks_entries told made banks caches hmarks hafter, List.flatMap_cons, List.append_assoc,
      List.length_cons, Nat.succ_mul, Nat.succ_mul]
    congr 5 <;> omega

theorem marks_banks {l : List MemoryBank} :
    marks (some (0, 0)) (l.zipIdx.map (fun x => .told (.bank i (.ofNat x.2)) x.1) ++ rest)
      = marks (some (l.length, 0)) rest := by
  rw [marks_entries (fun k => Exchange.told (.bank i k)) (fun _ => []) 1 0 (fun _ _ _ => rfl)
    fun _ _ _ _ => rfl]
  simp

theorem marks_links {peer : Bool} {answers : List (Option Link)} {b c : Nat} :
    marks (some (b, c))
        (answers.zipIdx.map (fun x => .told (.link i (.ofNat x.2) peer) x.1) ++ rest)
      = answers.map (.answer peer) ++ marks (some (b, c)) rest := by
  rw [marks_entries (fun k => Exchange.told (.link i k peer)) (fun a => [.answer peer a]) 0 0
    (fun _ _ _ => rfl) fun _ _ _ _ => rfl, List.map_eq_flatMap]
  rfl

namespace Course

theorem marks_processors {table : List Processor} (h : processors.Reads s es table s') :
    marks pending (es ++ rest) = marks pending rest := by
  obtain ⟨-, -, ⟨-, rfl⟩ | ⟨-, rfl⟩⟩ := reads_processors h
  · cases pending <;> rfl
  · rfl

theorem marks_named {p p' : Profile} (h : (named p).Reads s es p' s') :
    marks pending (es ++ rest) = marks pending rest := by
  obtain ⟨-, -, rfl, -⟩ | ⟨-, table, htable, -⟩ := reads_named h
  · rfl
  · exact marks_processors htable

theorem marks_caches {p : Profile} {l : List Cache} (h : (caches i p).Reads s es l s') {b : Nat} :
    marks (some (b, 0)) (es ++ rest) = marks (some (b, l.length)) rest := by
  obtain ⟨-, -, -, rfl⟩ | ⟨-, -, rfl, rfl, -⟩ | ⟨-, -, es', table, htable, rfl⟩ := reads_caches h
  · rw [marks_entries (fun k => Exchange.told (.cache i k)) (fun _ => []) 0 1 (fun _ _ _ => rfl)
      fun _ _ _ _ => rfl]
    simp
  · rfl
  · rw [List.append_assoc, marks_processors htable]
    simp [marks, Exchange.marks, Exchange.after, Exchange.told, Exchange.banks, Exchange.caches]

end Course

namespace NodeReading

/-- What is counted of a node: the answers from its link tables, then the node. -/
def marks (rn : NodeReading) : List Tally.Mark :=
  rn.standard.map (.answer false) ++ rn.peers.map (.answer true)
    ++ [.node rn.banks.length rn.caches.length]

theorem sum_step_marks (k : Tally.Counter) (rn : NodeReading) :
    (rn.marks.map k.step).sum = k.amount rn := by
  have hanswers : ∀ peer (answers : List (Option Link)),
      ((answers.map (.answer peer)).map k.step).sum = answers.countP (k.counts peer) := by
    intro peer answers
    induction answers with
    | nil => rfl
    | cons a answers ih =>
      rw [List.map_cons, List.map_cons, List.sum_cons, ih, List.countP_cons, Nat.add_comm]
      rfl
  rw [marks, List.map_append, List.map_append, List.sum_append, List.sum_append, hanswers,
    hanswers]
  rfl

theorem Along.marks_eq {rn : NodeReading} (h : rn.Along nodes i s es s') :
    ComputeTopology.marks pending (es ++ rest)
      = pending.marks ++ (rn.standard.map (.answer false) ++ rn.peers.map (.answer true))
        ++ ComputeTopology.marks (some (rn.banks.length, rn.caches.length)) rest := by
  obtain ⟨_, _, _, _, hnamed, hcaches, -, -, rfl⟩ := h.exchanges
  simp only [linkExchanges, List.cons_append, List.append_assoc]
  rw [ComputeTopology.marks, Course.marks_named hnamed]
  change _ ++ ComputeTopology.marks (some (0, 0)) _ = _
  rw [marks_banks, Course.marks_caches hcaches, marks_links, marks_links]
  simp [Exchange.told, Exchange.marks]

theorem Along.report_mem {rn : NodeReading} (h : rn.Along nodes i s es s') :
    .told (.report i) rn.report ∈ es := by
  obtain ⟨_, _, _, _, -, -, -, -, rfl⟩ := h.exchanges
  simp

/-- If there is another node and no entry is supported, the whole standard table is skipped. -/
theorem Along.entries_le_skipped {rn : NodeReading} (h : rn.Along nodes i s es s')
    (hnodes : 1 < nodes.toNat)
    (hnone : ∀ {l peer a}, .told (.link i l peer) a ∈ es → a = none) :
    rn.report.entries false ≤ Tally.Counter.skipped.amount rn := by
  have hanswers : ∀ a ∈ rn.standard, a = none := by
    intro a ha
    obtain ⟨_, _, _, _, -, -, -, -, rfl⟩ := h.exchanges
    obtain ⟨x, hx, rfl⟩ : ∃ x ∈ rn.standard.zipIdx, x.1 = a := by
      rw [← List.zipIdx_map_fst 0 rn.standard] at ha
      exact List.mem_map.1 ha
    exact hnone (List.mem_append_right _ (List.mem_append_left _ (List.mem_map_of_mem hx)))
  have hnotSome : rn.standard.countP (·.isSome) = 0 :=
    List.countP_eq_zero.2 fun a ha => by simp [hanswers a ha]
  have hisNone : rn.standard.countP (·.isNone) = rn.standard.length :=
    List.countP_eq_length.2 fun a ha => by simp [hanswers a ha]
  have hfull := h.standard_filled.full
  rw [hnotSome, h.profile_counts.2.2] at hfull
  have hamount : rn.standard.countP (·.isNone) ≤ Tally.Counter.skipped.amount rn :=
    Nat.le_trans (Nat.le_add_right _ _) (Nat.le_add_right _ _)
  rw [hisNone] at hamount
  refine Nat.le_trans ?_ hamount
  change rn.report.profile.links.toNat - rn.report.peerLinks.toNat ≤ _
  omega

/-- The last node of a chain is counted when the generation is asked for. -/
theorem ChainAlong.marks_eq {answer : Except Fault UInt32} :
    ∀ {rs : List NodeReading} {index : Nat} {s : Progress} {es : List Exchange} {pending : Pending},
      ChainAlong nodes index s es rs s' →
        ComputeTopology.marks pending (es ++ [⟨.generation, answer⟩])
          = pending.marks ++ rs.flatMap (·.marks)
  | [], _, _, _, _, ⟨rfl, rfl⟩ => rfl
  | rn :: rs, _, _, _, _, ⟨_, _, _, hr, hrs, rfl⟩ => by
    rw [List.append_assoc, hr.marks_eq, hrs.marks_eq, List.flatMap_cons, marks]
    simp [Pending.marks]

end NodeReading

namespace Reading

variable {r : Reading}

/-- What is counted of a whole reading, node after node. -/
def marks (r : Reading) : List Tally.Mark :=
  r.nodes.flatMap (·.marks)

theorem Along.marks_eq (h : r.Along es s) {first : UInt32} {answer : Except Fault UInt32} :
    ComputeTopology.marks none (.told .generation first :: es ++ [⟨.generation, answer⟩])
      = r.marks := by
  obtain ⟨es', rfl, hchain⟩ := h.exchanges
  have hnodes : ComputeTopology.marks none (es' ++ [⟨.generation, answer⟩]) = r.marks :=
    hchain.marks_eq
  exact hnodes

theorem sum_step_marks (k : Tally.Counter) (r : Reading) :
    (r.marks.map k.step).sum = (r.nodes.map k.amount).sum := by
  rw [marks, List.map_flatMap, List.flatMap_def, List.sum_flatten, List.map_map]
  exact congrArg List.sum (List.map_congr_left fun rn _ => rn.sum_step_marks k)

/-- The counters are where the marks have carried them. -/
theorem Along.value_marks (h : r.Along es s) (k : Tally.Counter) :
    k.value s.tally = k.value (r.marks.foldl Tally.mark {}) := by
  rw [h.value_eq, k.value_marks, sum_step_marks, k.value_empty, UInt32.zero_add]

theorem Along.sum_nodes (h : r.Along es s) :
    (r.nodes.map Tally.Counter.nodes.amount).sum = r.platform.nodes.toNat := by
  rw [funext Tally.Counter.amount_nodes, ← h.length_nodes]
  simp

theorem Along.length_links_le (h : r.Along es s) {rn : NodeReading} (hrn : rn ∈ r.nodes) :
    rn.links.length ≤ r.platform.nodes.toNat - 1 := by
  rw [← rn.reported_node]
  exact (h.surveyed hrn).room

theorem Along.sum_links_le (h : r.Along es s) (peer : Bool) :
    (r.nodes.map (Tally.Counter.links peer).amount).sum
      ≤ r.platform.nodes.toNat * (r.platform.nodes.toNat - 1) := by
  have hle := List.sum_le_card_nsmul (r.nodes.map (Tally.Counter.links peer).amount)
    (r.platform.nodes.toNat - 1) fun x hx => by
      obtain ⟨rn, hrn, rfl⟩ := List.mem_map.1 hx
      rw [Tally.Counter.amount_links]
      exact Nat.le_trans List.countP_le_length (h.length_links_le hrn)
  rwa [List.length_map, h.length_nodes] at hle

end Reading

end Reading

namespace Route

variable {size : Nat} {state : List Node × Tally} {l : Link} {nodes : List Node} {tally : Tally}

/-- If the route finds room, neither the count of its node nor that of the tally goes beyond 32
bits. -/
def InsertFits (capacity : Nat) (state : List Node × Tally) (l : Link) : Prop :=
  ∀ n ∈ state.1[l.source.toNat]?, n.links.length < capacity →
    n.profile.links.toNat + 1 < UInt32.size ∧ state.2.indirectLinks.toNat + 1 < UInt32.size

/-- Each of the routes fits when those before it are added. -/
def InsertsFit (capacity : Nat) : List Node × Tally → List Link → Prop
  | _, [] => True
  | state, l :: ls => InsertFits capacity state l ∧ InsertsFit capacity (insert capacity state l) ls

/-- No count goes beyond 32 bits as the node list is completed. -/
def CompleteFits (nodes : List Node) (tally : Tally) : Prop :=
  InsertsFit (nodes.length - 1) (nodes, tally) (candidates nodes)

/-- Each of `size` nodes counts its links, of which there are fewer than nodes, and the tally counts
no more routes than there are links. -/
structure Roomy (size : Nat) (state : List Node × Tally) : Prop where
  length_eq : state.1.length = size
  links_eq : ∀ n ∈ state.1, n.profile.links.toNat = n.links.length
  links_le : ∀ n ∈ state.1, n.links.length ≤ size - 1
  indirect_le : state.2.indirectLinks.toNat ≤ linkCount state.1

namespace Roomy

theorem linkCount_le (h : Roomy size state) : linkCount state.1 ≤ size * (size - 1) := by
  have hle := length_flatMap_links_le h.links_le
  rwa [List.length_flatMap, h.length_eq] at hle

theorem insertFits (h : Roomy size state) (hsize : size ≤ 65536) :
    InsertFits (size - 1) state l := by
  intro n hn hroom
  have hmem := List.mem_of_getElem? hn
  have hmul : size * (size - 1) ≤ 65536 * 65535 :=
    Nat.mul_le_mul hsize (Nat.sub_le_sub_right hsize 1)
  have hall := Nat.le_trans (Nat.le_trans h.indirect_le h.linkCount_le) hmul
  rw [h.links_eq n hmem]
  simp only [UInt32.size]
  omega

theorem insert (h : Roomy size state) (hsize : size ≤ 65536) :
    Roomy size (insert (size - 1) state l) := by
  have hfits := h.insertFits hsize (l := l)
  unfold Route.insert
  split
  · exact h
  · rename_i n hn
    split_ifs with hfull
    · exact h
    · have hroom := Nat.lt_of_not_le hfull
      obtain ⟨hlinks, hindirect⟩ := hfits n hn hroom
      have hmem := List.mem_of_getElem? hn
      constructor
      case length_eq => rw [List.length_set, h.length_eq]
      case links_eq =>
        intro m hm
        rcases List.mem_or_eq_of_mem_set hm with hm | rfl
        · exact h.links_eq m hm
        · rw [addLink, List.length_append, ← h.links_eq n hmem]
          exact toNat_add_ofNat hlinks
      case links_le =>
        intro m hm
        rcases List.mem_or_eq_of_mem_set hm with hm | rfl
        · exact h.links_le m hm
        · rw [addLink, List.length_append]
          exact hroom
      case indirect_le =>
        rw [linkCount_set hn]
        exact Nat.le_trans (Nat.le_of_eq (toNat_add_ofNat hindirect))
          (Nat.succ_le_succ h.indirect_le)

theorem insertsFit (hsize : size ≤ 65536) : ∀ {ls : List Link} {state : List Node × Tally},
    Roomy size state → InsertsFit (size - 1) state ls
  | [], _, _ => trivial
  | _ :: _, _, h => ⟨h.insertFits hsize, insertsFit hsize (h.insert hsize)⟩

end Roomy

/-- Routes add to no more links than there are pairs of nodes, so up to 65536 nodes they fit. -/
theorem fits_complete (hsize : nodes.length ≤ 65536) (h : Roomy nodes.length (nodes, tally)) :
    CompleteFits nodes tally :=
  Roomy.insertsFit hsize h

end Route

theorem Reading.Along.roomy {es : List Exchange} {r : Reading} {s : Progress} (h : r.Along es s) :
    Route.Roomy (r.nodes.map (·.node)).length (r.nodes.map (·.node), s.tally) := by
  have hlength : (r.nodes.map (·.node)).length = r.platform.nodes.toNat := by
    rw [List.length_map, h.length_nodes]
  have hlinks : ∀ n ∈ r.nodes.map (·.node), n.links.length ≤ r.platform.nodes.toNat - 1
      ∧ n.profile.links = .ofNat n.links.length := fun n hn => by
    obtain ⟨rn, hrn, rfl⟩ := List.mem_map.1 hn
    exact ⟨h.length_links_le hrn, rfl⟩
  constructor
  case length_eq => rfl
  case links_eq =>
    intro n hn
    obtain ⟨hle, hprofile⟩ := hlinks n hn
    have hlt := UInt32.toNat_lt_size r.platform.nodes
    rw [hprofile, UInt32.toNat_ofNat_of_lt' (by omega)]
  case links_le => exact fun n hn => hlength ▸ (hlinks n hn).1
  case indirect_le =>
    rw [h.indirectLinks_eq]
    exact Nat.zero_le _

namespace Survey

variable {σ : Type} {es : List Exchange}

/-- What the attempt with these exchanges has to store is bounded. -/
structure Stores (es : List Exchange) : Prop where
  nodes : ∀ e ∈ es, e.nodes ≤ 65536
  banks : (es.map (·.banks)).sum < UInt32.size
  caches : (es.map (·.caches)).sum < UInt32.size

/-- Once everything is read, the routes that are then added fit. -/
def RoutesFit (es : List Exchange) : Prop :=
  ∀ first read r s, Reading.Along read r s → .told .generation first :: read <+: es →
    r.peersPresent = false → Route.CompleteFits (r.nodes.map (·.node)) s.tally

/-- Nothing that the attempt with these exchanges counts goes beyond 32 bits. -/
structure Fits (es : List Exchange) : Prop where
  stored : ∀ k ∈ Tally.Counter.stored, k.Fits {} (marks none es)
  skipped : Tally.Counter.skipped.Fits {} (marks none es)
  routes : RoutesFit es

/-- An attempt counts what a whole reading would, as far as it goes. -/
theorem exists_marks_isPrefix (M : Machine (StateM σ)) (number : UInt32) (s : σ) :
    let es := ((attempt number).transcript M s).map (·.1)
    marks none es = [] ∨ ∃ r read s', Reading.Along read r s' ∧ .told .platform r.platform ∈ es
      ∧ marks none es <+: r.marks := by
  intro es
  obtain ⟨path, _, hreads, hfollows, -⟩ := exists_follows M (attempt number) s
  change Follows path es at hfollows
  clear_value es
  obtain ⟨first, last, read, _, hc, -, rfl⟩ := reads_attempt_content hreads
  obtain ⟨r, s', hr, -⟩ := reads_content hc
  have hpath : marks none (.told .generation first :: read ++ [.told .generation last]) = r.marks :=
    hr.marks_eq
  have hgoes : marks none es <+: r.marks := hpath ▸ hfollows.marks_isPrefix
  obtain ⟨es', rfl, -⟩ := hr.exchanges
  have hstart : marks none es = [] ∨ .told .platform r.platform ∈ es := by
    rcases hfollows with _ | ⟨before, hpath⟩
    · exact .inr (by simp)
    · rcases before with _ | ⟨_, _ | ⟨_, before⟩⟩
      · obtain ⟨hfirst, -⟩ := List.cons.inj hpath
        obtain rfl := congrArg Exchange.probe hfirst
        exact .inl rfl
      · obtain ⟨rfl, hrest⟩ := List.cons.inj hpath
        obtain ⟨hplatform, -⟩ := List.cons.inj hrest
        obtain rfl := congrArg Exchange.probe hplatform
        exact .inl rfl
      · obtain ⟨-, hrest⟩ := List.cons.inj hpath
        obtain ⟨rfl, -⟩ := List.cons.inj hrest
        exact .inr (by simp)
  exact hstart.imp_right fun hplatform => ⟨r, _, s', hr, hplatform, hgoes⟩

/-- A counter fits in an attempt if it does in every whole reading of at most 65536 nodes. -/
theorem fits_of_reading {M : Machine (StateM σ)} {number : UInt32} {s : σ} {k : Tally.Counter}
    (hes : es = ((attempt number).transcript M s).map (·.1)) (h : Stores es)
    (hk : ∀ {r read s'}, Reading.Along read r s' → r.platform.nodes.toNat ≤ 65536 →
      (r.nodes.map k.amount).sum < UInt32.size) : k.Fits {} (marks none es) := by
  rw [k.fits_empty_iff]
  rcases hes ▸ exists_marks_isPrefix M number s with hnone | ⟨r, _, _, hr, hplatform, hgoes⟩
  · rw [hnone]
    exact (by decide : 0 < UInt32.size)
  · have hle := (hgoes.sublist.map k.step).sum_le_sum fun _ _ => Nat.zero_le _
    rw [r.sum_step_marks] at hle
    exact Nat.lt_of_le_of_lt hle (hk hr (h.nodes _ hplatform))

theorem stored_fit {M : Machine (StateM σ)} {number : UInt32} {s : σ}
    (hes : es = ((attempt number).transcript M s).map (·.1)) (h : Stores es) :
    ∀ k ∈ Tally.Counter.stored, k.Fits {} (marks none es) := by
  have hlinks : ∀ table, (Tally.Counter.links table).Fits {} (marks none es) := fun table =>
    fits_of_reading hes h fun hr hsize =>
      Nat.lt_of_le_of_lt (Nat.le_trans (hr.sum_links_le table)
        (Nat.mul_le_mul hsize (Nat.sub_le_sub_right hsize 1))) (by decide)
  simp only [Tally.Counter.stored, List.forall_mem_cons]
  refine ⟨?nodes, ?banks, ?caches, hlinks false, hlinks true, fun k hk => nomatch hk⟩
  case nodes =>
    exact fits_of_reading hes h fun hr _ => hr.sum_nodes ▸ UInt32.toNat_lt_size _
  case banks =>
    rw [Tally.Counter.fits_empty_iff]
    refine Nat.lt_of_le_of_lt (sum_step_marks_le (fun _ _ => rfl) fun _ _ _ _ => rfl) ?_
    rw [Option.elim_none, Nat.zero_add]
    exact h.banks
  case caches =>
    rw [Tally.Counter.fits_empty_iff]
    refine Nat.lt_of_le_of_lt (sum_step_marks_le (fun _ _ => rfl) fun _ _ _ _ => rfl) ?_
    rw [Option.elim_none, Nat.zero_add]
    exact h.caches

theorem routes_fit (h : Stores es) : RoutesFit es := by
  intro first read r s hr hread hpeers
  obtain ⟨_, rfl, -⟩ := hr.exchanges
  refine Route.fits_complete ?_ hr.roomy
  rw [List.length_map, hr.length_nodes]
  exact h.nodes (.told .platform r.platform) (hread.subset (by simp))

theorem skipped_fits_iff :
    Tally.Counter.skipped.Fits {} (marks none es) ↔ es.countP (·.isSkipped) < UInt32.size := by
  rw [Tally.Counter.fits_empty_iff, sum_step_skipped]

/-- As long as what it stores is bounded, no count of an attempt goes beyond 32 bits if and only if
it skips fewer than 2 ^ 32 link entries, whether it is answered to its end or not. The counts of
what is stored fit in any case. In the end the counters are where the marks have carried them. -/
theorem attempt_fits_iff (M : Machine (StateM σ)) (number : UInt32) (s : σ)
    (h : Stores (((attempt number).transcript M s).map (·.1))) :
    let es := ((attempt number).transcript M s).map (·.1)
    (Fits es ↔ es.countP (·.isSkipped) < UInt32.size)
      ∧ (∀ k ∈ Tally.Counter.stored, k.Fits {} (marks none es)) ∧ RoutesFit es
      ∧ ∀ S tally t, (attempt number).run M s = (.ok (some (S, tally)), t) →
        ∀ k ∈ Tally.Counter.skipped :: Tally.Counter.stored,
          k.value tally = k.value ((marks none es).foldl Tally.mark {}) := by
  intro es
  have hstored : ∀ k ∈ Tally.Counter.stored, k.Fits {} (marks none es) := stored_fit rfl h
  have hroutes := routes_fit h
  refine ⟨⟨fun hfits => skipped_fits_iff.1 hfits.skipped,
    fun hskipped => ⟨hstored, skipped_fits_iff.2 hskipped, hroutes⟩⟩, hstored, hroutes, ?_⟩
  intro S tally t hrun k hk
  obtain ⟨r, s', read, hr, hes, -, -, rfl⟩ := reads_attempt (reads_of_run_ok _ hrun)
  have hvalue := hr.value_marks k
  have hmarks : marks none (.told .generation S.generation :: read
      ++ [.told .generation S.generation]) = r.marks := hr.marks_eq
  rw [← hmarks] at hvalue
  change _ = k.value ((marks none (((attempt number).transcript M s).map (·.1))).foldl _ _)
  rw [hes]
  refine Eq.trans ?_ hvalue
  rw [r.countsMore_outcome]
  simp only [Tally.Counter.stored, List.mem_cons, List.not_mem_nil, or_false] at hk
  rcases hk with rfl | rfl | rfl | rfl | rfl | rfl <;> rfl

theorem attempt_fits_iff_boastful :
    let es := ((attempt 1).transcript Publisher.boastful ()).map (·.1)
    Stores es ∧ es.countP (·.isSkipped) = 39 ∧ Fits es := by
  intro es
  have hstores : Stores es :=
    ⟨by decide +kernel, by decide +kernel, by decide +kernel⟩
  exact ⟨hstores, by decide +kernel,
    (attempt_fits_iff Publisher.boastful 1 () hstores).1.2 (by decide +kernel)⟩

/-- What two GPUs report that have nothing but link entries, 2 ^ 32 together. -/
def barrenReport (i : UInt32) : Report where
  profile := { gpuId := 7 + i, links := if i = 0 then 4294967295 else 1 }
  peersPresent := false
  peerLinks := 0

/-- A machine that supports none of these entries. -/
def barren : Machine (StateM Unit) where
  answer
    | .generation => return .ok 1
    | .platform => return .ok { nodes := 2 }
    | .report i => return .ok (barrenReport i)
    | .bank _ _ => return .error (.unavailable "bank" "none")
    | .cache _ _ => return .error (.unavailable "cache" "none")
    | .link _ _ _ => return .ok none
    | .processors => return .ok []
    | .processorCaches _ _ => return .ok []
  wait _ := return ()

def barrenExchanges : List Exchange :=
  ((attempt 1).transcript barren ()).map (·.1)

theorem answer_of_barren {p : Probe} {a : Except Fault p.Answer}
    (h : ⟨p, a⟩ ∈ barrenExchanges) : a = (barren.answer p ()).1 := by
  obtain ⟨x, hx, hxa⟩ := List.mem_map.1 h
  obtain ⟨_, hu⟩ := exists_answer_of_mem hx
  rw [hxa] at hu
  exact (congrArg Prod.fst hu).symm

theorem report_of_barren {i : UInt32} {r : Report}
    (h : .told (.report i) r ∈ barrenExchanges) :
    r = barrenReport i :=
  Except.ok.inj (answer_of_barren h)

theorem stores_barren : Stores barrenExchanges := by
  have hnone : ∀ e ∈ barrenExchanges, e.nodes ≤ 65536 ∧ e.banks = 0 ∧ e.caches = 0 := by
    rintro ⟨p, a⟩ he
    obtain rfl := answer_of_barren he
    cases p with
    | platform => exact ⟨by decide, rfl, rfl⟩
    | _ => exact ⟨Nat.zero_le _, rfl, rfl⟩
  have hzero : ∀ {f : Exchange → Nat}, (∀ e ∈ barrenExchanges, f e = 0) →
      (barrenExchanges.map f).sum < UInt32.size := by
    intro f hf
    have hsum := List.sum_eq_zero fun x hx => by
      obtain ⟨e, he, rfl⟩ := List.mem_map.1 hx
      exact hf e he
    rw [hsum]
    decide
  exact ⟨fun e he => (hnone e he).1, hzero fun e he => (hnone e he).2.1,
    hzero fun e he => (hnone e he).2.2⟩

/-- The machine answers all that it is asked, so an attempt counts a whole reading. -/
theorem exists_along_barren : ∃ r read s, Reading.Along read r s
    ∧ marks none barrenExchanges = r.marks
    ∧ ∀ e ∈ read, e ∈ barrenExchanges := by
  obtain ⟨v, hreads⟩ : ∃ v, (attempt 1).Reads barrenExchanges v := by
    rcases hrun : (attempt 1).run barren () with ⟨f | v, t⟩
    · obtain ⟨before, p, htranscript, hpermitted⟩ :=
        exists_fault_of_within _ (within_attempt [] 1) hrun
      rw [List.nil_append] at hpermitted
      have hbefore : ∀ e ∈ before.map (·.1), e ∈ barrenExchanges := by
        rw [barrenExchanges, htranscript, List.map_append]
        exact fun e he => List.mem_append_left _ he
      have hfault := answer_of_barren (p := p) (a := .error f)
        (by rw [barrenExchanges, htranscript]; simp)
      -- only banks and caches are answered with a fault, and none of them are announced
      cases p with
      | bank i b =>
        obtain ⟨r, hr, hlt⟩ := hpermitted
        rw [report_of_barren (hbefore _ hr)] at hlt
        cases hlt
      | cache i k =>
        obtain ⟨r, hr, hlt⟩ := hpermitted
        rw [report_of_barren (hbefore _ hr)] at hlt
        cases hlt
      | _ => cases hfault
    · exact ⟨v, reads_of_run_ok _ hrun⟩
  obtain ⟨first, last, read, _, hc, -, hes⟩ := reads_attempt_content hreads
  obtain ⟨r, s, hr, -⟩ := reads_content hc
  rw [hes]
  exact ⟨r, read, s, hr, hr.marks_eq, fun e he => by simp [he]⟩

/-- The entries that are skipped need not fit: two nodes are enough to announce 2 ^ 32 of them. -/
theorem barren_not_fits : Stores barrenExchanges ∧ ¬ Fits barrenExchanges := by
  refine ⟨stores_barren, fun hfits => ?_⟩
  obtain ⟨r, read, s, hr, hmarks, hread⟩ := exists_along_barren
  have hplatform : r.platform = { nodes := 2 } := by
    obtain ⟨_, rfl, -⟩ := hr.exchanges
    exact Except.ok.inj (answer_of_barren (hread (.told .platform r.platform) List.mem_cons_self))
  have hskipped : ∀ {k : Nat} {rn : NodeReading}, r.nodes[k]? = some rn →
      (barrenReport (.ofNat k)).entries false ≤ Tally.Counter.skipped.amount rn := by
    intro k rn hrn
    obtain ⟨_, es', _, hal, hsub⟩ := hr.exists_along hrn
    rw [← report_of_barren (hread _ (hsub _ hal.report_mem))]
    refine hal.entries_le_skipped (by rw [hplatform]; decide) fun {_ _ _} h => ?_
    exact Except.ok.inj (answer_of_barren (hread _ (hsub _ h)))
  obtain ⟨a, b, hnodes⟩ : ∃ a b, r.nodes = [a, b] := by
    refine List.length_eq_two.1 ?_
    rw [hr.length_nodes, hplatform]
    rfl
  have ha : 4294967295 ≤ Tally.Counter.skipped.amount a := hskipped (k := 0) (by rw [hnodes]; rfl)
  have hb : 1 ≤ Tally.Counter.skipped.amount b := hskipped (k := 1) (by rw [hnodes]; rfl)
  have hsum := Tally.Counter.skipped.fits_empty_iff.1 hfits.skipped
  rw [hmarks, r.sum_step_marks, hnodes] at hsum
  simp only [List.map_cons, List.map_nil, List.sum_cons, List.sum_nil, UInt32.size] at hsum
  omega

end Survey

end ComputeTopology
