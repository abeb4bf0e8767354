import ComputeTopology.Proofs.Script

/-!
# What an attempt asks

Whatever a machine answers, an attempt asks along a script, to its end or up to the first fault
(`Survey.attempt_asks`). From the script can be read that nothing but the generation is asked for
twice (`Reading.askedOnce_script`) and that no link is asked for once its node has as many as there
are other nodes (`Reading.obeys_script`).
-/

namespace ComputeTopology

/-- The node that the probe is about. -/
def Probe.node? : Probe → Option UInt32
  | .report i | .bank i _ | .cache i _ | .link i _ _ | .processorCaches i _ => some i
  | .generation | .platform | .processors => none

/-- The answer shows a link of node `i`. -/
def Exchange.finds (i : UInt32) : Exchange → Bool
  | ⟨.link j _ _, .ok (some _)⟩ => j = i
  | _ => false

/-- Nothing but the generation is asked for twice. -/
def AskedOnce (es : List Exchange) : Prop :=
  es.Pairwise fun e e' => e.probe = e'.probe → e.probe = .generation

/-- A link is asked for only while fewer are found of its node than there are other nodes. -/
def HasRoom (before : List Exchange) : Probe → Prop
  | .link i _ _ => ∃ platform, .told .platform platform ∈ before
      ∧ before.countP (·.finds i) < platform.nodes.toNat - 1
  | _ => True

theorem ofNat_inj {j k : Nat} (hj : j < UInt32.size) (hk : k < UInt32.size)
    (h : UInt32.ofNat j = .ofNat k) : j = k := by
  rw [← UInt32.toNat_ofNat_of_lt' hj, h, UInt32.toNat_ofNat_of_lt' hk]

theorem Exchange.probe_of_finds {i : UInt32} {e : Exchange} (h : e.finds i = true) :
    ∃ k peer, e.probe = .link i k peer := by
  unfold finds at h
  split at h
  · obtain rfl := of_decide_eq_true h
    exact ⟨_, _, rfl⟩
  · cases h

theorem Exchange.finds_link {i k : UInt32} {peer : Bool} {a : Option Link} :
    (told (.link i k peer) a).finds i = a.isSome := by
  cases a <;> simp [finds, told]

theorem Follows.askedOnce {path es : List Exchange} (h : Follows path es)
    (hpath : AskedOnce path) : AskedOnce es := by
  rcases h with _ | ⟨_, rfl⟩
  · exact hpath
  · obtain ⟨hbefore, -, hnext⟩ := List.pairwise_append.1 hpath
    refine List.pairwise_append.2 ⟨hbefore, List.pairwise_singleton _ _, fun e he e' he' => ?_⟩
    obtain rfl := List.mem_singleton.1 he'
    exact hnext e he (.told _ _) List.mem_cons_self

section Entries

variable {α : Type} (told : UInt32 → α → Exchange)

theorem of_mem_entries {l : List α} {e : Exchange}
    (h : e ∈ l.zipIdx.map fun x => told (.ofNat x.2) x.1) : ∃ k a, e = told k a := by
  obtain ⟨x, -, rfl⟩ := List.mem_map.1 h
  exact ⟨_, _, rfl⟩

/-- A table that is read in order is asked for each entry once. -/
theorem askedOnce_entries {l : List α} (hl : l.length < UInt32.size)
    (hinj : ∀ {j k a b}, (told j a).probe = (told k b).probe → j = k) :
    AskedOnce (l.zipIdx.map fun x => told (.ofNat x.2) x.1) := by
  rw [AskedOnce, List.pairwise_iff_getElem]
  intro j k hj hk hjk h
  simp only [List.length_map, List.length_zipIdx] at hj hk
  simp only [List.getElem_map, List.getElem_zipIdx, Nat.zero_add] at h
  have := ofNat_inj (by omega) (by omega) (hinj h)
  omega

/-- A link table is read as long as there is room. -/
theorem obeys_hasRoom_links {i : UInt32} {peer : Bool} {platform : Platform} :
    ∀ {answers : List (Option Link)} {index : Nat} {before : List Exchange},
      .told .platform platform ∈ before →
        (answers ≠ [] → before.countP (·.finds i) + answers.dropLast.countP (·.isSome)
          < platform.nodes.toNat - 1) →
        Obeys HasRoom before
          ((answers.zipIdx index).map fun x => .told (.link i (.ofNat x.2) peer) x.1)
  | [], _, _, _, _ => trivial
  | a :: answers, index, before, hplatform, hroom => by
    have hroom := hroom (List.cons_ne_nil _ _)
    refine ⟨⟨platform, hplatform, by omega⟩,
      obeys_hasRoom_links (List.mem_append_left _ hplatform) fun hne => ?_⟩
    rw [List.dropLast_cons_of_ne_nil hne, List.countP_cons] at hroom
    simp only [List.countP_append, List.countP_singleton, Exchange.finds_link]
    omega

theorem countP_finds_links {i : UInt32} {peer : Bool} {answers : List (Option Link)} {index : Nat} :
    ((answers.zipIdx index).map fun x => Exchange.told (.link i (.ofNat x.2) peer) x.1).countP
      (·.finds i) = answers.countP (·.isSome) := by
  induction answers generalizing index with
  | nil => rfl
  | cons a answers ih =>
    rw [List.zipIdx_cons, List.map_cons, List.countP_cons, List.countP_cons, ih,
      Exchange.finds_link]

/-- What is not about a link needs no room. -/
theorem obeys_hasRoom_of_forall {es before : List Exchange}
    (h : ∀ e ∈ es, ∀ i k peer, e.probe ≠ .link i k peer) : Obeys HasRoom before es := by
  induction es generalizing before with
  | nil => trivial
  | cons e es ih =>
    refine ⟨?_, ih fun e he => h e (List.mem_cons_of_mem _ he)⟩
    have hne := h e List.mem_cons_self
    unfold HasRoom
    split
    · rename_i i k peer heq
      exact absurd heq (hne i k peer)
    · trivial

end Entries

section Table

variable {table : List Processor} {known : Bool} {i : UInt32} {p : Profile} {l : List Cache}
  {e : Exchange}

theorem mem_tableCall : e ∈ tableCall table known ↔ e = .told .processors table ∧ known = false := by
  cases known <;> simp [tableCall]

theorem of_mem_cacheCalls (h : e ∈ cacheCalls table known i p l) :
    (∃ k, e.probe = .cache i k) ∨ e.probe = .processorCaches i table
      ∨ e.probe = .processors ∧ known = false ∧ p.caches = 0 ∧ p.isGpu = false := by
  unfold cacheCalls at h
  split_ifs at h with hcaches hgpu
  · obtain ⟨k, a, rfl⟩ := of_mem_entries (fun k a => .told (.cache i k) a) h
    exact .inl ⟨k, rfl⟩
  · cases h
  · rcases List.mem_append.1 h with h | h
    · obtain ⟨rfl, hknown⟩ := mem_tableCall.1 h
      exact .inr (.inr ⟨rfl, hknown, by simpa using hcaches, by simpa using hgpu⟩)
    · obtain rfl := List.mem_singleton.1 h
      exact .inr (.inl rfl)

theorem askedOnce_tableCall : AskedOnce (tableCall table known) := by
  cases known
  · exact List.pairwise_singleton _ _
  · exact List.Pairwise.nil

theorem askedOnce_cacheCalls (hl : p.caches ≠ 0 → l.length < UInt32.size) :
    AskedOnce (cacheCalls table known i p l) := by
  unfold cacheCalls
  split_ifs with hcaches hgpu
  · refine askedOnce_entries (fun k a => .told (.cache i k) a) (hl hcaches) ?_
    intro _ _ _ _ h
    cases h
    rfl
  · exact List.Pairwise.nil
  · refine List.pairwise_append.2 ⟨askedOnce_tableCall, List.pairwise_singleton _ _, ?_⟩
    intro e he e' he' h
    obtain ⟨rfl, -⟩ := mem_tableCall.1 he
    obtain rfl := List.mem_singleton.1 he'
    cases h

end Table

namespace NodeReading

variable {nodes i : UInt32} {table : List Processor} {known : Bool} {r : NodeReading}
  {e : Exchange}

theorem of_mem_nameCalls (h : e ∈ r.nameCalls table known) :
    e.probe = .processors ∧ known = false ∧ r.isNamed = true := by
  unfold nameCalls at h
  split_ifs at h with hnamed
  · obtain ⟨rfl, hknown⟩ := mem_tableCall.1 h
    exact ⟨rfl, hknown, hnamed⟩
  · cases h

theorem of_mem_bankCalls (h : e ∈ r.bankCalls i) : ∃ k, e.probe = .bank i k := by
  obtain ⟨k, a, rfl⟩ := of_mem_entries (fun k a => .told (.bank i k) a) h
  exact ⟨k, rfl⟩

theorem of_mem_linkExchanges (h : e ∈ r.linkExchanges i) :
    ∃ k peer, e.probe = .link i k peer := by
  rcases List.mem_append.1 h with h | h
  · obtain ⟨k, a, rfl⟩ := of_mem_entries (fun k a => .told (.link i k false) a) h
    exact ⟨k, false, rfl⟩
  · obtain ⟨k, a, rfl⟩ := of_mem_entries (fun k a => .told (.link i k true) a) h
    exact ⟨k, true, rfl⟩

theorem of_mem_ownCalls (h : e ∈ r.ownCalls table known i) :
    e.probe = .report i ∨ e.probe = .processors ∧ known = false ∧ r.usesTable = true
      ∨ (∃ k, e.probe = .bank i k) ∨ (∃ k, e.probe = .cache i k)
      ∨ e.probe = .processorCaches i table := by
  simp only [ownCalls, List.cons_append, List.mem_cons, List.mem_append] at h
  rcases h with rfl | (h | h) | h
  · exact .inl rfl
  · obtain ⟨hp, hknown, hnamed⟩ := of_mem_nameCalls h
    exact .inr (.inl ⟨hp, hknown, by simp [usesTable, hnamed]⟩)
  · exact .inr (.inr (.inl (of_mem_bankCalls h)))
  · rcases of_mem_cacheCalls h with hp | hp | ⟨hp, hknown, hcaches, hgpu⟩
    · exact .inr (.inr (.inr (.inl hp)))
    · exact .inr (.inr (.inr (.inr hp)))
    · rw [Bool.or_eq_false_iff] at hknown
      exact .inr (.inl ⟨hp, hknown.1, by simp [usesTable, hcaches, hgpu]⟩)

theorem of_mem_calls (h : e ∈ r.calls table known i) :
    e.probe.node? = some i ∨ e.probe = .processors ∧ known = false ∧ r.usesTable = true := by
  rcases List.mem_append.1 h with h | h
  · rcases of_mem_ownCalls h with hp | hp | ⟨k, hp⟩ | ⟨k, hp⟩ | hp
    · exact .inl (by rw [hp]; rfl)
    · exact .inr hp
    · exact .inl (by rw [hp]; rfl)
    · exact .inl (by rw [hp]; rfl)
    · exact .inl (by rw [hp]; rfl)
  · obtain ⟨k, peer, hp⟩ := of_mem_linkExchanges h
    exact .inl (by rw [hp]; rfl)

/-- The table is asked for where it is first needed. -/
theorem processors_mem_calls (h : r.usesTable = true) :
    .told .processors table ∈ r.calls table false i := by
  refine List.mem_append_left _ ?_
  simp only [ownCalls, List.cons_append, List.mem_cons, List.mem_append]
  by_cases hnamed : r.isNamed = true
  · exact .inr (.inl (.inl (by simp [nameCalls, hnamed, tableCall])))
  · have hcaches : r.report.profile.caches = 0 ∧ r.report.profile.isGpu = false := by
      simpa [usesTable, hnamed] using h
    exact .inr (.inr (by simp [cacheCalls, hcaches, hnamed, tableCall]))

theorem askedOnce_ownCalls (h : r.Complete nodes) : AskedOnce (r.ownCalls table known i) := by
  have hname : AskedOnce (r.nameCalls table known) := by
    unfold nameCalls
    split_ifs
    · exact askedOnce_tableCall
    · exact List.Pairwise.nil
  have hbanks : AskedOnce (r.bankCalls i) := by
    refine askedOnce_entries (fun k a => .told (.bank i k) a) ?_ fun h => by cases h; rfl
    rw [h.banks]
    exact UInt32.toNat_lt_size _
  have hcaches : AskedOnce
      (cacheCalls table (known || r.isNamed) i r.report.profile r.caches) := by
    refine askedOnce_cacheCalls fun hne => ?_
    rw [h.caches hne]
    exact UInt32.toNat_lt_size _
  refine List.pairwise_append.2 ⟨List.pairwise_append.2
    ⟨List.pairwise_cons.2 ⟨?_, hname⟩, hbanks, ?_⟩, hcaches, ?_⟩
  · intro e he heq
    obtain ⟨hp, -⟩ := of_mem_nameCalls he
    cases heq.trans hp
  · intro e he e' he' heq
    obtain ⟨k, hp'⟩ := of_mem_bankCalls he'
    rcases List.mem_cons.1 he with rfl | he
    · cases heq.trans hp'
    · obtain ⟨hp, -⟩ := of_mem_nameCalls he
      rw [hp, hp'] at heq
      cases heq
  · intro e he e' he' heq
    rcases List.mem_append.1 he with he | he
    · rcases List.mem_cons.1 he with rfl | he
      · rcases of_mem_cacheCalls he' with ⟨k, hp'⟩ | hp' | ⟨hp', -⟩ <;> cases heq.trans hp'
      · -- the name has asked for the table, so it is known when it comes to the caches
        obtain ⟨hp, -, hnamed⟩ := of_mem_nameCalls he
        rcases of_mem_cacheCalls he' with ⟨k, hp'⟩ | hp' | ⟨-, hknown, -⟩
        · rw [hp, hp'] at heq
          cases heq
        · rw [hp, hp'] at heq
          cases heq
        · simp [hnamed] at hknown
    · obtain ⟨k, hp⟩ := of_mem_bankCalls he
      rcases of_mem_cacheCalls he' with ⟨k, hp'⟩ | hp' | ⟨hp', -⟩ <;> rw [hp, hp'] at heq <;>
        cases heq

theorem askedOnce_linkExchanges (h : r.Complete nodes) : AskedOnce (r.linkExchanges i) := by
  refine List.pairwise_append.2 ⟨?_, ?_, fun e he e' he' heq => ?_⟩
  · refine askedOnce_entries (fun k a => .told (.link i k false) a) ?_ fun h => by cases h; rfl
    exact Nat.lt_of_le_of_lt h.standard.length_le
      (Nat.lt_of_le_of_lt (Nat.sub_le _ _) (UInt32.toNat_lt_size _))
  · refine askedOnce_entries (fun k a => .told (.link i k true) a) ?_ fun h => by cases h; rfl
    exact Nat.lt_of_le_of_lt h.peers.length_le (UInt32.toNat_lt_size _)
  · obtain ⟨_, _, rfl⟩ := of_mem_entries (fun k a => .told (.link i k false) a) he
    obtain ⟨_, _, rfl⟩ := of_mem_entries (fun k a => .told (.link i k true) a) he'
    cases heq

theorem askedOnce_calls (h : r.Complete nodes) : AskedOnce (r.calls table known i) := by
  refine List.pairwise_append.2
    ⟨askedOnce_ownCalls h, askedOnce_linkExchanges h, fun e he e' he' heq => ?_⟩
  obtain ⟨k, peer, hp'⟩ := of_mem_linkExchanges he'
  rw [hp'] at heq
  rcases of_mem_ownCalls he with hp | ⟨hp, -⟩ | ⟨k, hp⟩ | ⟨k, hp⟩ | hp <;> rw [hp] at heq <;>
    cases heq

/-- No link is asked for without room, if none of the node's was found before. -/
theorem obeys_calls {platform : Platform} {before : List Exchange} (h : r.Complete platform.nodes)
    (hplatform : .told .platform platform ∈ before)
    (hbefore : ∀ e ∈ before, e.probe.node? ≠ some i) :
    Obeys HasRoom before (r.calls table known i) := by
  have hnot : ∀ e ∈ r.ownCalls table known i, ∀ j k peer, e.probe ≠ .link j k peer := by
    intro e he j k peer heq
    rcases of_mem_ownCalls he with hp | ⟨hp, -⟩ | ⟨k, hp⟩ | ⟨k, hp⟩ | hp <;> rw [hp] at heq <;>
      cases heq
  have hnone : (before ++ r.ownCalls table known i).countP (·.finds i) = 0 := by
    rw [List.countP_eq_zero]
    intro e he hfinds
    obtain ⟨k, peer, hp⟩ := Exchange.probe_of_finds hfinds
    rcases List.mem_append.1 he with he | he
    · exact hbefore e he (by rw [hp]; rfl)
    · exact hnot e he i k peer hp
  refine obeys_append.2 ⟨obeys_hasRoom_of_forall hnot, obeys_append.2 ⟨?_, ?_⟩⟩
  · refine obeys_hasRoom_links (List.mem_append_left _ hplatform) fun hne => ?_
    rw [hnone]
    exact h.standard.room hne
  · refine obeys_hasRoom_links
      (List.mem_append_left _ (List.mem_append_left _ hplatform)) fun hne => ?_
    rw [List.countP_append, hnone, countP_finds_links, Nat.zero_add, ← length_found false]
    exact h.peers.room hne

theorem of_mem_callsFrom :
    ∀ {rs : List NodeReading} {index : Nat} {known : Bool}, e ∈ callsFrom table known index rs →
      (∃ k, index ≤ k ∧ k < index + rs.length ∧ e.probe.node? = some (.ofNat k))
        ∨ e.probe = .processors ∧ known = false ∧ ∃ r ∈ rs, r.usesTable = true
  | [], _, _, h => by cases h
  | r :: rs, index, known, h => by
    rcases List.mem_append.1 h with h | h
    · rcases of_mem_calls h with hnode | ⟨hp, hknown, huses⟩
      · exact .inl ⟨index, Nat.le_refl _, by simp, hnode⟩
      · exact .inr ⟨hp, hknown, r, List.mem_cons_self, huses⟩
    · rcases of_mem_callsFrom h with ⟨k, hle, hlt, hnode⟩ | ⟨hp, hknown, x, hx, huses⟩
      · exact .inl ⟨k, by omega, by rw [List.length_cons]; omega, hnode⟩
      · rw [Bool.or_eq_false_iff] at hknown
        exact .inr ⟨hp, hknown.1, x, List.mem_cons_of_mem _ hx, huses⟩

theorem processors_mem_callsFrom :
    ∀ {rs : List NodeReading} {index : Nat}, (∃ r ∈ rs, r.usesTable = true) →
      .told .processors table ∈ callsFrom table false index rs
  | [], _, h => by simp at h
  | r :: rs, index, h => by
    rw [callsFrom]
    by_cases huses : r.usesTable = true
    · exact List.mem_append_left _ (processors_mem_calls huses)
    · have hrest : ∃ x ∈ rs, x.usesTable = true := by simpa [huses] using h
      rw [Bool.not_eq_true] at huses
      rw [huses]
      exact List.mem_append_right _ (processors_mem_callsFrom hrest)

theorem askedOnce_callsFrom :
    ∀ {rs : List NodeReading} {index : Nat} {known : Bool}, (∀ r ∈ rs, r.Complete nodes) →
      index + rs.length ≤ UInt32.size → AskedOnce (callsFrom table known index rs)
  | [], _, _, _, _ => List.Pairwise.nil
  | r :: rs, index, known, h, hsize => by
    rw [List.length_cons] at hsize
    refine List.pairwise_append.2 ⟨askedOnce_calls (h r List.mem_cons_self),
      askedOnce_callsFrom (fun x hx => h x (List.mem_cons_of_mem _ hx)) (by omega), ?_⟩
    intro e he e' he' heq
    rcases of_mem_calls he with hnode | ⟨hp, -, huses⟩
    · rcases of_mem_callsFrom he' with ⟨k, hle, hlt, hnode'⟩ | ⟨hp', -⟩
      · rw [heq, hnode'] at hnode
        have := ofNat_inj (by omega) (by omega) (Option.some.inj hnode)
        omega
      · rw [heq, hp'] at hnode
        cases hnode
    · rcases of_mem_callsFrom he' with ⟨k, -, -, hnode'⟩ | ⟨-, hknown, -⟩
      · rw [← heq, hp] at hnode'
        cases hnode'
      · simp [huses] at hknown

theorem obeys_callsFrom {platform : Platform} :
    ∀ {rs : List NodeReading} {index : Nat} {known : Bool} {before : List Exchange},
      (∀ r ∈ rs, r.Complete platform.nodes) → index + rs.length ≤ UInt32.size →
        .told .platform platform ∈ before →
        (∀ e ∈ before, ∀ k, index ≤ k → k < index + rs.length →
          e.probe.node? ≠ some (.ofNat k)) →
        Obeys HasRoom before (callsFrom table known index rs)
  | [], _, _, _, _, _, _, _ => trivial
  | r :: rs, index, known, before, h, hsize, hplatform, hbefore => by
    rw [List.length_cons] at hsize hbefore
    refine obeys_append.2 ⟨obeys_calls (h r List.mem_cons_self) hplatform fun e he =>
      hbefore e he index (Nat.le_refl _) (by omega), ?_⟩
    refine obeys_callsFrom (fun x hx => h x (List.mem_cons_of_mem _ hx)) (by omega)
      (List.mem_append_left _ hplatform) fun e he k hle hlt heq => ?_
    rcases List.mem_append.1 he with he | he
    · exact hbefore e he k (by omega) (by omega) heq
    · rcases of_mem_calls he with hnode | ⟨hp, -⟩
      · rw [hnode] at heq
        have := ofNat_inj (by omega) (by omega) (Option.some.inj heq)
        omega
      · rw [hp] at heq
        cases heq

end NodeReading

namespace Reading

variable {r : Reading} {first last : UInt32} {table : List Processor}

theorem Complete.length_le_size (h : r.Complete) : r.nodes.length ≤ UInt32.size := by
  rw [h.length_nodes]
  exact Nat.le_of_lt (UInt32.toNat_lt_size _)

theorem askedOnce_script (h : r.Complete) : AskedOnce (r.script first table last) := by
  refine List.pairwise_append.2 ⟨List.pairwise_cons.2 ⟨fun _ _ _ => rfl, List.pairwise_cons.2
    ⟨?_, NodeReading.askedOnce_callsFrom h.nodes (by simpa using h.length_le_size)⟩⟩,
    List.pairwise_singleton _ _, ?_⟩
  · intro e he heq
    rcases NodeReading.of_mem_callsFrom he with ⟨k, -, -, hnode⟩ | ⟨hp, -⟩
    · rw [← heq] at hnode
      cases hnode
    · cases heq.trans hp
  · intro e _ e' he' heq
    obtain rfl := List.mem_singleton.1 he'
    exact heq

theorem obeys_script (h : r.Complete) : Obeys HasRoom [] (r.script first table last) := by
  refine obeys_append.2 ⟨⟨trivial, trivial, ?_⟩, trivial, trivial⟩
  refine NodeReading.obeys_callsFrom h.nodes (by simpa using h.length_le_size) (by simp)
    fun e he k _ _ heq => ?_
  simp only [List.nil_append, List.singleton_append, List.mem_cons, List.not_mem_nil, or_false]
    at he
  rcases he with rfl | rfl <;> cases heq

/-- The processor table is asked for exactly if a node needs it. -/
theorem processors_mem_script_iff : (∃ e ∈ r.script first table last, e.probe = .processors)
    ↔ ∃ x ∈ r.nodes, x.usesTable = true := by
  constructor
  · rintro ⟨e, he, hp⟩
    simp only [script, List.cons_append, List.mem_cons, List.mem_append, List.not_mem_nil,
      or_false] at he
    rcases he with rfl | rfl | he | rfl
    · cases hp
    · cases hp
    · rcases NodeReading.of_mem_callsFrom he with ⟨k, -, -, hnode⟩ | ⟨-, -, huses⟩
      · rw [hp] at hnode
        cases hnode
      · exact huses
    · cases hp
  · intro h
    refine ⟨.told .processors table, ?_, rfl⟩
    simp only [script, List.cons_append, List.mem_cons, List.mem_append]
    exact .inr (.inr (.inl (NodeReading.processors_mem_callsFrom h)))

end Reading

namespace Survey

variable {σ : Type}

/-- An attempt, whichever it is and wherever the machine stands, goes along a script up to the first
fault: through all of it if there is none. It asks for the processor table if a node needs it, for
nothing but the generation twice, for no more than was announced, and for no link without room. -/
theorem attempt_asks (M : Machine (StateM σ)) (number : UInt32) (s : σ) :
    let exchanges := ((attempt number).transcript M s).map (·.1)
    (∃ (r : Reading) (first : UInt32) (table : List Processor) (last : UInt32), r.Complete
        ∧ Follows (r.script first table last) exchanges
        ∧ (∀ v t, (attempt number).run M s = (.ok v, t) → exchanges = r.script first table last)
        ∧ ((∃ e ∈ r.script first table last, e.probe = .processors)
          ↔ ∃ x ∈ r.nodes, x.usesTable = true))
      ∧ AskedOnce exchanges ∧ Obeys Permitted [] exchanges ∧ Obeys HasRoom [] exchanges := by
  intro exchanges
  obtain ⟨path, v, hreads, hfollows, hok⟩ := exists_follows M (attempt number) s
  have hpermitted := (within_attempt [] number).obeys hreads
  obtain ⟨r, first, table, last, hcomplete, rfl⟩ := reads_attempt_script hreads
  exact ⟨⟨r, first, table, last, hcomplete, hfollows, hok, Reading.processors_mem_script_iff⟩,
    hfollows.askedOnce (Reading.askedOnce_script hcomplete), hfollows.obeys hpermitted,
    hfollows.obeys (Reading.obeys_script hcomplete)⟩

/-- Two hosts and a GPU without entries. The table that the first host needs serves the second. -/
example : ((attempt 1).transcript Capture.machine { nodes := [.cpu 4, .gpu 7, .cpu 8] }).map
    (·.1.probe) = [.generation, .platform, .report 0, .processors, .processorCaches 0 [],
      .report 1, .report 2, .processorCaches 2 [], .generation] := rfl

end Survey

end ComputeTopology
