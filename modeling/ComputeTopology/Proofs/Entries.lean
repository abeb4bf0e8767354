import ComputeTopology.Proofs.Asked

/-!
# What comes after a link entry that is not supported

A link entry can be answered as not supported in two forms, with no link or with the fault that
says so (`Exchange.isUnsupported`). Either way there is still room for a link, so the next entry
is asked for: the next one of the table, the first peer link after the standard table, or else the
next node (`Platform.afterEntry`). An attempt keeps to that as far as it goes
(`Reading.obeys_goesOn_script`), and it ends with such an entry only if that is answered with the
fault (`Follows.of_last_isUnsupported`).
-/

namespace ComputeTopology

/-- The link entry is answered as not supported, in either form. -/
def Exchange.isUnsupported : Exchange → Bool
  | ⟨.link _ _ _, .ok none⟩ => true
  | ⟨.link _ _ _, .error (.notSupported _)⟩ => true
  | _ => false

/-- The link entry is answered as not supported by a fault. -/
def Exchange.isRefused : Exchange → Bool
  | ⟨.link _ _ _, .error (.notSupported _)⟩ => true
  | _ => false

/-- The number of entries in one of the node's link tables. -/
def Report.entries (r : Report) (peer : Bool) : Nat :=
  if peer then r.peerLinks.toNat else r.profile.links.toNat - r.peerLinks.toNat

/-- The nodes from `index` on begin with a report; after the last one the generation is read
again. -/
def Platform.visit (platform : Platform) (index : Nat) : Probe :=
  if index < platform.nodes.toNat then .report (.ofNat index) else .generation

/-- What comes after entry `k` of a table of node `i`, which reports `r`, while there is room. -/
def Platform.afterEntry (platform : Platform) (r : Report) (i k : UInt32) (peer : Bool) : Probe :=
  if k.toNat + 1 < r.entries peer then .link i (k + 1) peer
  else if peer = false ∧ 0 < r.entries true then .link i 0 true
  else platform.visit (i.toNat + 1)

/-- After an entry that is not supported comes the next one. -/
def GoesOn (before : List Exchange) (p : Probe) : Prop :=
  ∀ e ∈ before.getLast?, e.isUnsupported = true → ∀ i k peer, e.probe = .link i k peer →
    ∃ platform r, .told .platform platform ∈ before ∧ .told (.report i) r ∈ before
      ∧ p = platform.afterEntry r i k peer

variable {before es : List Exchange} {e : Exchange} {p : Probe} {platform : Platform} {r : Report}
  {i : UInt32} {peer : Bool} {answers : List (Option Link)}

namespace Exchange

theorem probe_of_isUnsupported (h : e.isUnsupported = true) :
    ∃ i k peer, e.probe = .link i k peer := by
  unfold isUnsupported at h
  split at h
  · exact ⟨_, _, _, rfl⟩
  · exact ⟨_, _, _, rfl⟩
  · cases h

theorem isUnsupported_told_link {k : UInt32} {a : Option Link} :
    (told (.link i k peer) a).isUnsupported = a.isNone := by
  cases a <;> rfl

theorem isUnsupported_error {f : Fault} :
    isUnsupported ⟨p, .error f⟩ = isRefused ⟨p, .error f⟩ := by
  cases p <;> cases f <;> rfl

end Exchange

theorem goesOn_of_last (h : ∀ e ∈ before.getLast?, e.isUnsupported = false) : GoesOn before p :=
  fun e he hunsupported => by
    rw [h e he] at hunsupported
    cases hunsupported

/-- Exchanges that are about no link go on anyhow, if they do not begin behind one. -/
theorem obeys_goesOn_of_forall :
    ∀ {es before : List Exchange}, (∀ e ∈ before.getLast?, e.isUnsupported = false) →
      (∀ e ∈ es, e.isUnsupported = false) → Obeys GoesOn before es
  | [], _, _, _ => trivial
  | e :: es, before, hlast, hes => by
    refine ⟨goesOn_of_last hlast, obeys_goesOn_of_forall (fun e' he' => ?_) fun e' he' =>
      hes e' (List.mem_cons_of_mem _ he')⟩
    obtain rfl : e = e' := by simpa using he'
    exact hes e List.mem_cons_self

theorem Filled.of_last_none {capacity held left : Nat}
    (h : Filled capacity held left (answers ++ [none])) :
    answers.length + 1 = left ∧ held + answers.countP (·.isSome) < capacity := by
  have hroom := h.room (by simp)
  rw [List.dropLast_concat] at hroom
  have hle := h.length_le
  have hfull := h.full
  simp only [List.length_append, List.length_singleton, List.countP_append] at hle hfull
  refine ⟨?_, hroom⟩
  by_contra hne
  have := hfull (by omega)
  simp only [List.countP_singleton, Option.isSome_none] at this
  simp at this
  omega

/-- Within a table one entry comes after the other. -/
theorem obeys_goesOn_links :
    ∀ {answers : List (Option Link)} {index : Nat} {before : List Exchange},
      .told .platform platform ∈ before → .told (.report i) r ∈ before →
        (answers ≠ [] → GoesOn before (.link i (.ofNat index) peer)) →
        index + answers.length ≤ r.entries peer → r.entries peer < UInt32.size →
        Obeys GoesOn before
          ((answers.zipIdx index).map fun x => .told (.link i (.ofNat x.2) peer) x.1)
  | [], _, _, _, _, _, _, _ => trivial
  | a :: answers, index, before, hplatform, hreport, hfirst, hle, hsize => by
    rw [List.length_cons] at hle
    refine ⟨hfirst (List.cons_ne_nil _ _), obeys_goesOn_links (List.mem_append_left _ hplatform)
      (List.mem_append_left _ hreport) (fun hne => ?_) (by omega) hsize⟩
    intro e he _ j k peer' hp
    obtain rfl : Exchange.told (.link i (.ofNat index) peer) a = e := by simpa using he
    cases hp
    have hlength := List.length_pos_iff.2 hne
    refine ⟨platform, r, List.mem_append_left _ hplatform, List.mem_append_left _ hreport, ?_⟩
    rw [Platform.afterEntry, UInt32.toNat_ofNat_of_lt' (by omega), if_pos (by omega),
      UInt32.ofNat_add]
    rfl

/-- Behind a table that ends with an unsupported entry there is room, and the table is at its end.
-/
theorem goesOn_behind_links {capacity held : Nat}
    (hfilled : Filled capacity held (r.entries peer) answers) (hsize : r.entries peer < UInt32.size)
    (hplatform : .told .platform platform ∈ before) (hreport : .told (.report i) r ∈ before)
    (hbefore : answers = [] → GoesOn before p)
    (hnext : held + answers.countP (·.isSome) < capacity →
      p = if peer = false ∧ 0 < r.entries true then .link i 0 true
        else platform.visit (i.toNat + 1)) :
    GoesOn (before ++ answers.zipIdx.map fun x => .told (.link i (.ofNat x.2) peer) x.1) p := by
  rcases List.eq_nil_or_concat answers with rfl | ⟨init, a, rfl⟩
  · simpa using hbefore rfl
  rw [List.concat_eq_append] at hfilled hnext ⊢
  intro e he hunsupported j k peer' hp
  simp only [List.zipIdx_append, List.map_append, List.zipIdx_singleton, List.map_singleton,
    ← List.append_assoc, List.getLast?_concat, Nat.zero_add, Option.mem_def, Option.some.injEq]
    at he
  subst he
  cases hp
  rw [Exchange.isUnsupported_told_link, Option.isNone_iff_eq_none] at hunsupported
  subst hunsupported
  obtain ⟨hlength, hroom⟩ := hfilled.of_last_none
  refine ⟨platform, r, List.mem_append_left _ hplatform, List.mem_append_left _ hreport, ?_⟩
  rw [Platform.afterEntry, UInt32.toNat_ofNat_of_lt' (by omega), if_neg (by omega)]
  exact hnext (by simpa using hroom)

namespace NodeReading

variable {table : List Processor} {known : Bool} {rn : NodeReading}

theorem isUnsupported_of_mem_ownCalls (h : e ∈ rn.ownCalls table known i) :
    e.isUnsupported = false := by
  rw [Bool.eq_false_iff]
  intro hunsupported
  obtain ⟨j, k, peer, hlink⟩ := Exchange.probe_of_isUnsupported hunsupported
  rcases of_mem_ownCalls h with hp | ⟨hp, -⟩ | ⟨k, hp⟩ | ⟨k, hp⟩ | hp <;> rw [hlink] at hp <;>
    cases hp

theorem goesOn_behind_ownCalls : GoesOn (before ++ rn.ownCalls table known i) p := by
  have hne : rn.ownCalls table known i ≠ [] := by simp [ownCalls]
  refine goesOn_of_last fun e he => ?_
  rw [List.getLast?_append, List.getLast?_eq_some_getLast hne, Option.some_or] at he
  obtain rfl := Option.some.inj he
  exact isUnsupported_of_mem_ownCalls (List.getLast_mem hne)

theorem obeys_goesOn_ownCalls (h : GoesOn before (.report i)) :
    Obeys GoesOn before (rn.ownCalls table known i) := by
  have hall : ∀ e ∈ rn.ownCalls table known i, e.isUnsupported = false :=
    fun e he => isUnsupported_of_mem_ownCalls he
  simp only [ownCalls, List.cons_append] at hall ⊢
  refine ⟨h, obeys_goesOn_of_forall (fun e he => ?_) fun e he =>
    hall e (List.mem_cons_of_mem _ he)⟩
  obtain rfl : Exchange.told (.report i) rn.report = e := by simpa using he
  rfl

theorem report_mem_ownCalls : .told (.report i) rn.report ∈ rn.ownCalls table known i := by
  simp [ownCalls]

/-- About one node, every unsupported entry is followed by the next, the last one by the next
node. -/
theorem obeys_goesOn_calls (h : rn.Complete platform.nodes)
    (hplatform : .told .platform platform ∈ before) (hbefore : GoesOn before (.report i)) :
    Obeys GoesOn before (rn.calls table known i)
      ∧ GoesOn (before ++ rn.calls table known i) (platform.visit (i.toNat + 1)) := by
  have hsize : ∀ peer, rn.report.entries peer < UInt32.size := by
    rintro (_ | _)
    · exact Nat.lt_of_le_of_lt (Nat.sub_le _ _) (UInt32.toNat_lt_size _)
    · exact UInt32.toNat_lt_size _
  have hstandard : Filled (platform.nodes.toNat - 1) 0 (rn.report.entries false) rn.standard :=
    h.standard
  have hpeers : Filled (platform.nodes.toNat - 1) (found false rn.standard).length
      (rn.report.entries true) rn.peers := h.peers
  have hplatform' := List.mem_append_left (rn.ownCalls table known i) hplatform
  have hreport' : .told (.report i) rn.report ∈ before ++ rn.ownCalls table known i :=
    List.mem_append_right _ report_mem_ownCalls
  -- the table of peer links is begun if there is room for one, and else there is nothing after it
  have hbetween : ∀ p, (rn.peers ≠ [] → p = .link i 0 true) →
      (rn.peers = [] → p = platform.visit (i.toNat + 1)) →
      GoesOn (before ++ rn.ownCalls table known i
        ++ rn.standard.zipIdx.map fun x => .told (.link i (.ofNat x.2) false) x.1) p := by
    intro p hsome hnone
    refine goesOn_behind_links hstandard (hsize _) hplatform' hreport'
      (fun _ => goesOn_behind_ownCalls) fun hroom => ?_
    rw [Nat.zero_add, ← length_found false] at hroom
    by_cases hne : rn.peers = []
    · have hzero : rn.report.entries true = 0 := by
        by_contra hpos
        have := hpeers.full (by rw [hne, List.length_nil]; omega)
        rw [hne] at this
        simp only [List.countP_nil] at this
        omega
      rw [hnone hne, if_neg (by omega)]
    · have hpos := Nat.lt_of_lt_of_le (List.length_pos_iff.2 hne) hpeers.length_le
      rw [hsome hne, if_pos ⟨rfl, hpos⟩]
  rw [calls, linkExchanges, ← List.append_assoc, ← List.append_assoc, ← List.append_assoc]
  refine ⟨obeys_append.2 ⟨obeys_append.2 ⟨obeys_goesOn_ownCalls hbefore, ?_⟩, ?_⟩, ?_⟩
  · exact obeys_goesOn_links hplatform' hreport' (fun _ => goesOn_behind_ownCalls)
      (by simpa using hstandard.length_le) (hsize _)
  · rw [← List.append_assoc]
    exact obeys_goesOn_links (List.mem_append_left _ hplatform') (List.mem_append_left _ hreport')
      (fun hne => hbetween _ (fun _ => rfl) (absurd · hne)) (by simpa using hpeers.length_le)
      (hsize _)
  · refine goesOn_behind_links hpeers (hsize _) (List.mem_append_left _ hplatform')
      (List.mem_append_left _ hreport') (fun hne => hbetween _ (absurd hne) fun _ => rfl)
      fun _ => ?_
    rw [if_neg (by simp)]

theorem obeys_goesOn_callsFrom :
    ∀ {rs : List NodeReading} {index : Nat} {known : Bool} {before : List Exchange},
      (∀ rn ∈ rs, rn.Complete platform.nodes) → index + rs.length = platform.nodes.toNat →
        .told .platform platform ∈ before → GoesOn before (platform.visit index) →
        Obeys GoesOn before (callsFrom table known index rs)
          ∧ GoesOn (before ++ callsFrom table known index rs) .generation
  | [], index, _, before, _, hlength, _, hbefore => by
    rw [Platform.visit, if_neg (by simp only [List.length_nil] at hlength; omega)] at hbefore
    exact ⟨trivial, by rwa [callsFrom, List.append_nil]⟩
  | rn :: rs, index, known, before, h, hlength, hplatform, hbefore => by
    rw [List.length_cons] at hlength
    have hlt : index < platform.nodes.toNat := by omega
    have hindex : (UInt32.ofNat index).toNat = index :=
      UInt32.toNat_ofNat_of_lt' (Nat.lt_trans hlt (UInt32.toNat_lt_size _))
    rw [Platform.visit, if_pos hlt] at hbefore
    rw [callsFrom, obeys_append, ← List.append_assoc]
    obtain ⟨hcalls, hbehind⟩ := obeys_goesOn_calls (h rn List.mem_cons_self) hplatform hbefore
    rw [hindex] at hbehind
    obtain ⟨hrest, hend⟩ := obeys_goesOn_callsFrom (fun x hx => h x (List.mem_cons_of_mem _ hx))
      (by omega) (List.mem_append_left _ hplatform) hbehind
    exact ⟨⟨hcalls, hrest⟩, hend⟩

end NodeReading

/-- A script goes on after every unsupported entry. -/
theorem Reading.obeys_goesOn_script {r : Reading} {first last : UInt32} {table : List Processor}
    (h : r.Complete) : Obeys GoesOn [] (r.script first table last) := by
  have hfirst : ∀ {q}, GoesOn [.told .generation first] q := goesOn_of_last (by simp; rfl)
  have hsecond : ∀ {q}, GoesOn [.told .generation first, .told .platform r.platform] q :=
    goesOn_of_last (by simp; rfl)
  obtain ⟨hcalls, hend⟩ := NodeReading.obeys_goesOn_callsFrom h.nodes
    (by rw [Nat.zero_add, h.length_nodes]) (by simp) hsecond
  exact obeys_append.2 ⟨⟨goesOn_of_last (by simp), hfirst, hcalls⟩, hend, trivial⟩

/-- The exchanges of an attempt are not about an unsupported entry at the end, unless the end is
that the entry is refused. -/
theorem Follows.of_last_isUnsupported {r : Reading} {first last : UInt32} {table : List Processor}
    (h : Follows (r.script first table last) es) (he : e ∈ es.getLast?)
    (hunsupported : e.isUnsupported = true) : e.isRefused = true := by
  rcases h with _ | ⟨before, -⟩
  · rw [Reading.script, List.getLast?_concat] at he
    obtain rfl := Option.some.inj he
    cases hunsupported
  · rw [List.getLast?_concat, Option.mem_def, Option.some.injEq] at he
    rwa [← he, ← Exchange.isUnsupported_error, he]

end ComputeTopology
