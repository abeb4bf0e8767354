import ComputeTopology.Proofs.Path
import ComputeTopology.Proofs.Retry

/-!
# What an attempt reads

Each function of a course has one lemma that says what it asks, what it makes of the answers and
what it remembers (`reads_entries`, `reads_processors`, `reads_links`). Put together they give a
`NodeReading` for every node (`reads_node`): the answers from which the node is made, and the
exchanges in their order.
-/

namespace ComputeTopology

/-- The links found among the answers to a table's probes. -/
def found (peer : Bool) (answers : List (Option Link)) : List Link :=
  answers.filterMap (·.map fun l => { l with kind := .direct, peer })

theorem found_cons_none (peer : Bool) (answers : List (Option Link)) :
    found peer (none :: answers) = found peer answers := rfl

theorem found_cons_some (peer : Bool) (l : Link) (answers : List (Option Link)) :
    found peer (some l :: answers) = { l with kind := .direct, peer } :: found peer answers := rfl

theorem found_append (peer : Bool) (answers more : List (Option Link)) :
    found peer (answers ++ more) = found peer answers ++ found peer more :=
  List.filterMap_append

theorem length_found (peer : Bool) (answers : List (Option Link)) :
    (found peer answers).length = answers.countP (·.isSome) := by
  induction answers with
  | nil => rfl
  | cons a answers ih => cases a <;> simp [found_cons_none, found_cons_some, ih]

/-- A link found is direct and bears the mark of its table. -/
theorem of_mem_found {peer : Bool} {answers : List (Option Link)} {l : Link}
    (h : l ∈ found peer answers) : l.kind = .direct ∧ l.peer = peer := by
  obtain ⟨a, -, ha⟩ := List.mem_filterMap.1 h
  obtain ⟨l', -, rfl⟩ := Option.map_eq_some_iff.1 ha
  exact ⟨rfl, rfl⟩

theorem kind_of_mem_found {standard peers : List (Option Link)} {l : Link}
    (h : l ∈ found false standard ++ found true peers) : l.kind = .direct := by
  rcases List.mem_append.1 h with h | h
  · exact (of_mem_found h).1
  · exact (of_mem_found h).1

/-- The tally after the answers to a table's probes. -/
def Tally.countAnswers (peer : Bool) (answers : List (Option Link)) (t : Tally) : Tally :=
  answers.foldl (fun t a => if a.isSome then t.countLink peer else t.countSkipped) t

/-- Of `left` entries so many were read as it takes to fill a node that has `held` links and room
for `capacity`, or all. -/
structure Filled (capacity held left : Nat) (answers : List (Option Link)) : Prop where
  length_le : answers.length ≤ left
  full : answers.length < left → capacity ≤ held + answers.countP (·.isSome)
  room : answers ≠ [] → held + answers.dropLast.countP (·.isSome) < capacity

theorem Filled.nil {capacity held left : Nat} (h : left = 0 ∨ capacity ≤ held) :
    Filled capacity held left [] where
  length_le := Nat.zero_le _
  full hl := h.elim (fun h => absurd hl (by simp [h])) (by simp)
  room h := absurd rfl h

theorem Filled.cons {capacity held left : Nat} {a : Option Link} {answers : List (Option Link)}
    (hroom : held < capacity)
    (h : Filled capacity (held + if a.isSome then 1 else 0) left answers) :
    Filled capacity held (left + 1) (a :: answers) where
  length_le := Nat.succ_le_succ h.length_le
  full hl := by
    have := h.full (Nat.lt_of_succ_lt_succ hl)
    rw [List.countP_cons]
    omega
  room _ := by
    rcases answers with _ | ⟨b, answers⟩
    · exact hroom
    · have := h.room (by simp)
      rw [List.dropLast_cons_cons, List.countP_cons]
      omega

theorem Filled.held_le {capacity held left : Nat} {answers : List (Option Link)}
    (h : Filled capacity held left answers) :
    held + answers.countP (·.isSome) ≤ max capacity held := by
  rcases List.eq_nil_or_concat answers with rfl | ⟨answers, a, rfl⟩
  · exact Nat.le_max_right _ _
  · rw [List.concat_eq_append] at h ⊢
    have := h.room (by simp)
    rw [List.dropLast_concat] at this
    rw [List.countP_append, List.countP_singleton]
    split_ifs <;> omega

/-- What is found in a table is what the whole table holds, cut off where there is no more room. -/
theorem Filled.found_eq_take {capacity held : Nat} {table answers : List (Option Link)}
    (h : Filled capacity held table.length answers) (htake : answers = table.take answers.length)
    (hheld : held ≤ capacity) (peer : Bool) :
    found peer answers = (found peer table).take (capacity - held) := by
  have hsplit : found peer table
      = found peer answers ++ found peer (table.drop answers.length) := by
    have htable := List.take_append_drop answers.length table
    rw [← htake] at htable
    rw [← found_append, htable]
  have hle := h.held_le
  rw [← length_found peer, Nat.max_eq_left hheld] at hle
  rcases Nat.lt_or_eq_of_le h.length_le with hlt | heq
  · have hfull := h.full hlt
    rw [← length_found peer] at hfull
    rw [hsplit, List.take_left']
    omega
  · rw [heq, List.take_length] at htake
    rw [← htake, List.take_of_length_le]
    omega

/-- An entry is read if the entries before it leave room. -/
theorem Filled.lt_length {capacity held k : Nat} {table answers : List (Option Link)}
    (h : Filled capacity held table.length answers) (htake : answers = table.take answers.length)
    (peer : Bool) (hk : k < table.length)
    (hroom : held + (found peer (table.take k)).length < capacity) : k < answers.length := by
  by_contra hle
  have hle := Nat.le_of_not_lt hle
  have hfull := h.full (Nat.lt_of_le_of_lt hle hk)
  have hbefore : answers <+: table.take k :=
    List.prefix_take_iff.2 ⟨List.prefix_iff_eq_take.2 htake, hle⟩
  have hfound : (found peer answers).length ≤ (found peer (table.take k)).length :=
    (hbefore.filterMap _).length_le
  rw [length_found] at hfound
  omega

namespace Course

variable {α : Type} {s s' : Progress} {es : List Exchange}

theorem reads_entries_zero {entry : UInt32 → Course α} {index : Nat} {l : List α} :
    (entries entry index 0).Reads s es l s' ↔ es = [] ∧ l = [] ∧ s = s' := by
  rw [entries, reads_pure, eq_comm (a := [])]

theorem reads_entries_succ {entry : UInt32 → Course α} {index left : Nat} {l : List α} :
    (entries entry index (left + 1)).Reads s es l s' ↔ ∃ es₁ a s₁ es₂ l',
      (entry (.ofNat index)).Reads s es₁ a s₁
        ∧ (entries entry (index + 1) left).Reads s₁ es₂ l' s' ∧ l = a :: l' ∧ es = es₁ ++ es₂ := by
  rw [entries, reads_bind]
  constructor
  · rintro ⟨es₁, a, s₁, es₂, h₁, h₂, rfl⟩
    obtain ⟨es₃, l', s₂, es₄, h₃, h₄, rfl⟩ := reads_bind.1 h₂
    obtain ⟨rfl, rfl, rfl⟩ := reads_pure.1 h₄
    exact ⟨es₁, a, s₁, es₃, l', h₁, h₃, rfl, by rw [List.append_nil]⟩
  · rintro ⟨es₁, a, s₁, es₂, l', h₁, h₂, rfl, rfl⟩
    refine ⟨es₁, a, s₁, es₂, h₁, reads_bind.2 ⟨es₂, l', s', [], h₂, reads_pure.2 ?_, ?_⟩, rfl⟩
    · exact ⟨rfl, rfl, rfl⟩
    · rw [List.append_nil]

/-- Entries of a table that one probe each is asked for. -/
theorem reads_entries (told : UInt32 → α → Exchange) {entry : UInt32 → Course α}
    (h : ∀ {i s es a s'}, (entry i).Reads s es a s' → es = [told i a] ∧ s = s') :
    ∀ {left index : Nat} {es : List Exchange} {l : List α},
      (entries entry index left).Reads s es l s' →
        l.length = left ∧ s = s' ∧ es = (l.zipIdx index).map fun x => told (.ofNat x.2) x.1
  | 0, _, _, _, hr => by
    obtain ⟨rfl, rfl, rfl⟩ := reads_entries_zero.1 hr
    exact ⟨rfl, rfl, rfl⟩
  | left + 1, index, _, _, hr => by
    obtain ⟨es₁, a, s₁, es₂, l', h₁, h₂, rfl, rfl⟩ := reads_entries_succ.1 hr
    obtain ⟨rfl, rfl⟩ := h h₁
    obtain ⟨hl, hs, rfl⟩ := reads_entries told h h₂
    exact ⟨congrArg (· + 1) hl, hs, rfl⟩

/-- The processor table is the one remembered, or else it is asked for and remembered. -/
theorem reads_processors {table : List Processor} (h : processors.Reads s es table s') :
    s'.processors = some table ∧ s'.tally = s.tally
      ∧ (s.processors = none ∧ es = [.told .processors table]
        ∨ s.processors = some table ∧ es = []) := by
  rw [processors, reads_bind] at h
  obtain ⟨_, r, s₁, es', hr, h, rfl⟩ := h
  obtain ⟨rfl, rfl, rfl⟩ := reads_get.1 hr
  rcases hs : r.processors with _ | known <;> simp only [hs] at h
  · obtain ⟨_, table', _, _, h₁, h₂, rfl⟩ := reads_bind.1 h
    obtain ⟨rfl, rfl⟩ := reads_ask.1 h₁
    obtain ⟨_, _, _, _, h₃, h₄, rfl⟩ := reads_bind.1 h₂
    obtain ⟨rfl, rfl⟩ := reads_modify.1 h₃
    obtain ⟨rfl, rfl, rfl⟩ := reads_pure.1 h₄
    exact ⟨rfl, rfl, .inl ⟨rfl, rfl⟩⟩
  · obtain ⟨rfl, rfl, rfl⟩ := reads_pure.1 h
    exact ⟨hs, rfl, .inr ⟨rfl, rfl⟩⟩

theorem reads_named {p p' : Profile} (h : (named p).Reads s es p' s') :
    p.cpuCores = 0 ∧ p' = p ∧ es = [] ∧ s = s'
      ∨ p.cpuCores ≠ 0 ∧ ∃ table, processors.Reads s es table s' ∧ p' = p.nameAfter table := by
  rw [named] at h
  split_ifs at h with hc
  · obtain ⟨rfl, rfl, rfl⟩ := reads_pure.1 h
    exact .inl ⟨hc, rfl, rfl, rfl⟩
  · obtain ⟨_, table, _, _, h₁, h₂, rfl⟩ := reads_bind.1 h
    obtain ⟨rfl, rfl, rfl⟩ := reads_pure.1 h₂
    exact .inr ⟨hc, table, by rwa [List.append_nil], rfl⟩

theorem reads_caches {i : UInt32} {p : Profile} {l : List Cache}
    (h : (caches i p).Reads s es l s') :
    p.caches ≠ 0 ∧ l.length = p.caches.toNat ∧ s = s'
        ∧ es = l.zipIdx.map (fun x => .told (.cache i (.ofNat x.2)) x.1)
      ∨ p.caches = 0 ∧ p.isGpu = true ∧ l = [] ∧ es = [] ∧ s = s'
      ∨ p.caches = 0 ∧ p.isGpu = false ∧ ∃ es' table, processors.Reads s es' table s'
        ∧ es = es' ++ [.told (.processorCaches i table) l] := by
  rw [caches] at h
  split_ifs at h with hc hg
  · obtain ⟨hl, hs, he⟩ := reads_entries (fun c => Exchange.told (.cache i c))
      (fun h => reads_ask.1 h) h
    exact .inl ⟨hc, hl, hs, he⟩
  · obtain ⟨rfl, rfl, rfl⟩ := reads_pure.1 h
    exact .inr (.inl ⟨by simpa using hc, hg, rfl, rfl, rfl⟩)
  · obtain ⟨es', table, _, _, h₁, h₂, rfl⟩ := reads_bind.1 h
    obtain ⟨rfl, rfl⟩ := reads_ask.1 h₂
    exact .inr (.inr ⟨by simpa using hc, by simpa using hg, es', table, h₁, rfl⟩)

theorem reads_links {i : UInt32} {peer : Bool} {capacity : Nat} :
    ∀ {left index : Nat} {known l : List Link} {s : Progress} {es : List Exchange},
      (links i peer capacity index left known).Reads s es l s' → ∃ answers,
        Filled capacity known.length left answers ∧ l = known ++ found peer answers
          ∧ s'.processors = s.processors ∧ s'.tally = s.tally.countAnswers peer answers
          ∧ es = (answers.zipIdx index).map fun x => .told (.link i (.ofNat x.2) peer) x.1
  | 0, index, known, l, s, es, h => by
    rw [links] at h
    obtain ⟨rfl, rfl, rfl⟩ := reads_pure.1 h
    exact ⟨[], .nil (.inl rfl), by simp [found], rfl, rfl, rfl⟩
  | left + 1, index, known, l, s, es, h => by
    rw [links] at h
    split_ifs at h with hfull
    · obtain ⟨rfl, rfl, rfl⟩ := reads_pure.1 h
      exact ⟨[], .nil (.inr hfull), by simp [found], rfl, rfl, rfl⟩
    · obtain ⟨_, answer, _, _, h₁, h₂, rfl⟩ := reads_bind.1 h
      obtain ⟨rfl, rfl⟩ := reads_ask.1 h₁
      have hroom := Nat.lt_of_not_le hfull
      rcases answer with _ | link
      · obtain ⟨_, _, _, _, h₃, h₄, rfl⟩ := reads_bind.1 h₂
        obtain ⟨rfl, rfl⟩ := reads_count.1 h₃
        obtain ⟨answers, hf, rfl, hp, ht, rfl⟩ := reads_links h₄
        exact ⟨none :: answers, .cons hroom hf, rfl, hp, ht, rfl⟩
      · obtain ⟨_, _, _, _, h₃, h₄, rfl⟩ := reads_bind.1 h₂
        obtain ⟨rfl, rfl⟩ := reads_count.1 h₃
        obtain ⟨answers, hf, rfl, hp, ht, rfl⟩ := reads_links h₄
        rw [List.length_append, List.length_singleton] at hf
        refine ⟨some link :: answers, .cons hroom hf, ?_, hp, ht, rfl⟩
        rw [found_cons_some, List.append_assoc, List.singleton_append]

end Course

/-- The answers that a node is made from. -/
structure NodeReading where
  report : Report
  /-- The reported profile, with its names. -/
  profile : Profile
  banks : List MemoryBank
  caches : List Cache
  standard : List (Option Link)
  peers : List (Option Link)

namespace NodeReading

def links (r : NodeReading) : List Link :=
  found false r.standard ++ found true r.peers

def node (r : NodeReading) : Node :=
  ⟨{ r.profile with caches := .ofNat r.caches.length, links := .ofNat r.links.length },
    r.banks, r.caches, r.links⟩

def count (r : NodeReading) (t : Tally) : Tally :=
  ((t.countAnswers false r.standard).countAnswers true r.peers).countNode
    r.banks.length r.caches.length

/-- The exchanges with the standard table and then with the table of peer links. -/
def linkExchanges (r : NodeReading) (i : UInt32) : List Exchange :=
  r.standard.zipIdx.map (fun x => .told (.link i (.ofNat x.2) false) x.1)
    ++ r.peers.zipIdx.map (fun x => .told (.link i (.ofNat x.2) true) x.1)

/-- A survey of node `i` among `nodes` nodes reads this: the exchanges lead there, and the memory
from `s` to `s'`. -/
structure Along (nodes i : UInt32) (s : Progress) (es : List Exchange) (r : NodeReading)
    (s' : Progress) : Prop where
  intro ::
  exchanges : ∃ es₁ es₂ s₁ s₂,
    (Course.named r.report.profile).Reads s es₁ r.profile s₁
      ∧ (Course.caches i r.profile).Reads s₁ es₂ r.caches s₂
      ∧ s'.processors = s₂.processors ∧ s'.tally = r.count s₂.tally
      ∧ es = .told (.report i) r.report :: es₁
        ++ r.banks.zipIdx.map (fun x => .told (.bank i (.ofNat x.2)) x.1) ++ es₂
        ++ r.linkExchanges i
  banks_length : r.banks.length = r.profile.banks.toNat
  standard_filled : Filled (nodes.toNat - 1) 0
    (r.profile.links.toNat - r.report.peerLinks.toNat) r.standard
  peers_filled : Filled (nodes.toNat - 1) (found false r.standard).length
    r.report.peerLinks.toNat r.peers

/-- The links of a node whose tables were read are the first ones that the tables hold. -/
theorem Along.links_eq_take {nodes i : UInt32} {s s' : Progress} {es : List Exchange}
    {r : NodeReading} (h : r.Along nodes i s es s') {table peerTable : List (Option Link)}
    (hlength : r.profile.links.toNat - r.report.peerLinks.toNat = table.length)
    (hpeerLength : r.report.peerLinks.toNat = peerTable.length)
    (htake : r.standard = table.take r.standard.length)
    (hpeerTake : r.peers = peerTable.take r.peers.length) :
    r.links = (found false table ++ found true peerTable).take (nodes.toNat - 1) := by
  have hstandard : found false r.standard = (found false table).take (nodes.toNat - 1) :=
    Filled.found_eq_take (hlength ▸ h.standard_filled) htake (Nat.zero_le _) false
  have hheld : (found false r.standard).length
      = min (nodes.toNat - 1) (found false table).length := by
    rw [hstandard, List.length_take]
  have hpeers := Filled.found_eq_take (hpeerLength ▸ h.peers_filled) hpeerTake (by omega) true
  have hrest : nodes.toNat - 1 - (found false r.standard).length
      = nodes.toNat - 1 - (found false table).length := by
    omega
  rw [links, hpeers, hrest, hstandard, ← List.take_append]

end NodeReading

theorem Course.reads_node {nodes i : UInt32} {s s' : Progress} {es : List Exchange}
    {n : Node × Bool} (h : (Course.node nodes i).Reads s es n s') :
    ∃ r : NodeReading, r.Along nodes i s es s' ∧ n = (r.node, r.report.peersPresent) := by
  rw [node] at h
  obtain ⟨_, report, _, _, hreport, h₁, rfl⟩ := reads_bind.1 h
  obtain ⟨rfl, rfl⟩ := reads_ask.1 hreport
  obtain ⟨es₁, profile, s₁, _, hnamed, h₂, rfl⟩ := reads_bind.1 h₁
  obtain ⟨_, banks, _, _, hbanks, h₃, rfl⟩ := reads_bind.1 h₂
  obtain ⟨hlen, rfl, rfl⟩ := reads_entries (fun b => Exchange.told (.bank i b))
    (fun h => reads_ask.1 h) hbanks
  obtain ⟨es₂, caches, s₂, _, hcaches, h₄, rfl⟩ := reads_bind.1 h₃
  obtain ⟨_, known, _, _, hstandard, h₅, rfl⟩ := reads_bind.1 h₄
  obtain ⟨standard, hfill, rfl, hp, ht, rfl⟩ := reads_links hstandard
  obtain ⟨_, all, _, _, hpeers, h₆, rfl⟩ := reads_bind.1 h₅
  obtain ⟨peers, hfill', rfl, hp', ht', rfl⟩ := reads_links hpeers
  obtain ⟨_, _, _, _, hcount, h₇, rfl⟩ := reads_bind.1 h₆
  obtain ⟨rfl, rfl⟩ := reads_count.1 hcount
  obtain ⟨rfl, rfl, rfl⟩ := reads_pure.1 h₇
  refine ⟨⟨report, profile, banks, caches, standard, peers⟩, ?_, rfl⟩
  refine ⟨⟨es₁, es₂, s₁, s₂, hnamed, hcaches, hp'.trans hp, ?_, ?_⟩, hlen, hfill, hfill'⟩
  · rw [NodeReading.count, ← ht, ← ht']
  · simp [NodeReading.linkExchanges]

namespace NodeReading

/-- A survey of the nodes from `index` on reads one reading after the other. -/
def ChainAlong (nodes : UInt32) :
    Nat → Progress → List Exchange → List NodeReading → Progress → Prop
  | _, s, es, [], s' => es = [] ∧ s = s'
  | index, s, es, r :: rs, s' => ∃ es₁ s₁ es₂, r.Along nodes (.ofNat index) s es₁ s₁
      ∧ ChainAlong nodes (index + 1) s₁ es₂ rs s' ∧ es = es₁ ++ es₂

/-- Every reading of a chain was read along exchanges of the chain, and began with what an
invariant of the readings before it says. -/
theorem ChainAlong.exists_along {nodes : UInt32} {P : Progress → Prop} {Q : Exchange → Prop}
    (hP : ∀ {i s es r s'}, Along nodes i s es r s' → (∀ e ∈ es, Q e) → P s → P s') :
    ∀ {rs : List NodeReading} {index : Nat} {s : Progress} {es : List Exchange} {s' : Progress},
      ChainAlong nodes index s es rs s' → (∀ e ∈ es, Q e) → P s → ∀ {k : Nat} {r : NodeReading},
        rs[k]? = some r → ∃ s₁ es₁ s₂,
          r.Along nodes (.ofNat (index + k)) s₁ es₁ s₂ ∧ (∀ e ∈ es₁, e ∈ es) ∧ P s₁
  | r₀ :: rs, index, s, es, s', ⟨es₁, s₁, es₂, hr, hrs, hes⟩, hQ, hs, 0, r, hk => by
    obtain rfl : r₀ = r := by simpa using hk
    exact ⟨s, es₁, s₁, hr, fun e he => hes ▸ List.mem_append_left _ he, hs⟩
  | r₀ :: rs, index, s, es, s', ⟨es₁, s₁, es₂, hr, hrs, hes⟩, hQ, hs, k + 1, r, hk => by
    subst hes
    obtain ⟨s₂, es₃, s₃, hr', hsub, hs₂⟩ := hrs.exists_along hP
      (fun e he => hQ e (List.mem_append_right _ he))
      (hP hr (fun e he => hQ e (List.mem_append_left _ he)) hs) (k := k) (by simpa using hk)
    rw [show index + 1 + k = index + (k + 1) by omega] at hr'
    exact ⟨s₂, es₃, s₃, hr', fun e he => List.mem_append_right _ (hsub e he), hs₂⟩
  | [], _, _, _, _, _, _, _, k, _, hk => by cases k <;> cases hk

end NodeReading

theorem Course.reads_nodes {nodes : UInt32} {s' : Progress} :
    ∀ {left index : Nat} {s : Progress} {es : List Exchange} {l : List (Node × Bool)},
      (entries (node nodes) index left).Reads s es l s' → ∃ rs,
        NodeReading.ChainAlong nodes index s es rs s' ∧ rs.length = left
          ∧ l = rs.map fun r => (r.node, r.report.peersPresent)
  | 0, _, _, _, _, h => by
    obtain ⟨rfl, rfl, rfl⟩ := reads_entries_zero.1 h
    exact ⟨[], ⟨rfl, rfl⟩, rfl, rfl⟩
  | left + 1, index, s, _, _, h => by
    obtain ⟨es₁, a, s₁, es₂, l', h₁, h₂, rfl, rfl⟩ := reads_entries_succ.1 h
    obtain ⟨r, hr, rfl⟩ := reads_node h₁
    obtain ⟨rs, hrs, hlen, rfl⟩ := reads_nodes h₂
    exact ⟨r :: rs, ⟨es₁, s₁, es₂, hr, hrs, rfl⟩, congrArg (· + 1) hlen, rfl⟩

/-- What a whole attempt reads between its two readings of the generation. -/
structure Reading where
  platform : Platform
  nodes : List NodeReading

namespace Reading

def peersPresent (r : Reading) : Bool :=
  r.nodes.any (·.report.peersPresent)

/-- The nodes and the tally that come of a reading which ends with the tally `t`. -/
def outcome (r : Reading) (t : Tally) : List Node × Tally :=
  let nodes := r.nodes.map (·.node)
  if r.peersPresent then (nodes, t) else Route.complete nodes t

structure Along (es : List Exchange) (r : Reading) (s : Progress) : Prop where
  intro ::
  exchanges : ∃ es', es = .told .platform r.platform :: es'
    ∧ NodeReading.ChainAlong r.platform.nodes 0 {} es' r.nodes s
  length_nodes : r.nodes.length = r.platform.nodes.toNat

end Reading

namespace Survey

theorem reads_content {es : List Exchange} {c : Platform × List Node × Tally}
    (h : content.Reads es c) :
    ∃ (r : Reading) (s : Progress), r.Along es s ∧ c = (r.platform, r.outcome s.tally) := by
  obtain ⟨_, platform, _, hp, h₁, rfl⟩ := reads_bind.1 h
  obtain rfl := reads_probe.1 hp
  obtain ⟨es', ⟨l, s⟩, _, hn, h₂, rfl⟩ := reads_bind.1 h₁
  obtain ⟨rfl, rfl⟩ := reads_pure.1 h₂
  obtain ⟨rs, hrs, hlen, rfl⟩ := Course.reads_nodes hn
  refine ⟨⟨platform, rs⟩, s, ⟨⟨es', by simp, hrs⟩, hlen⟩, ?_⟩
  simp only [Reading.outcome, Reading.peersPresent, List.map_map, List.any_map]
  rfl

/-- An attempt reads its content between two readings of the generation. -/
theorem reads_attempt_content {number : UInt32} {es : List Exchange}
    {v : Option (Snapshot × Tally)} (h : (attempt number).Reads es v) :
    ∃ first last es' c, content.Reads es' c ∧ v = verdict number first last c
      ∧ es = .told .generation first :: es' ++ [.told .generation last] := by
  rw [attempt_eq] at h
  obtain ⟨first, _, rfl, h₁⟩ := h
  obtain ⟨es', c, _, hc, ⟨last, _, rfl, rfl, hv⟩, rfl⟩ := reads_bind.1 h₁
  exact ⟨first, last, es', c, hc, hv.symm, rfl⟩

theorem reads_attempt {number : UInt32} {es : List Exchange} {S : Snapshot} {tally : Tally}
    (h : (attempt number).Reads es (some (S, tally))) :
    ∃ (r : Reading) (s : Progress) (es' : List Exchange), r.Along es' s
      ∧ es = .told .generation S.generation :: es' ++ [.told .generation S.generation]
      ∧ S.platform = r.platform ∧ S.nodes = (r.outcome s.tally).1
      ∧ tally = { (r.outcome s.tally).2 with attempts := number } := by
  obtain ⟨first, last, es', c, hc, hv, rfl⟩ := reads_attempt_content h
  obtain ⟨rfl, rfl, hplatform, hnodes, htally⟩ := verdict_eq_some hv.symm
  obtain ⟨r, s, hr, rfl⟩ := reads_content hc
  exact ⟨r, s, es', hr, rfl, hplatform, hnodes, htally⟩

end Survey

end ComputeTopology
