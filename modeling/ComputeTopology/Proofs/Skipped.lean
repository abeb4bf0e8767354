import ComputeTopology.Proofs.AtOnce
import ComputeTopology.Proofs.Counter
import ComputeTopology.Proofs.Entries
import ComputeTopology.Proofs.Renumbered
import ComputeTopology.Proofs.Surfacing
import ComputeTopology.Proofs.Surveyed

/-!
# Skipped links

An entry that is answered with no link is skipped: the survey goes on behind it, it leaves no
trace among the links of its node and is counted among the skipped ones
(`Survey.skips_of_not_refused`). An entry that is answered with the fault of what is not supported
is not skipped. It ends the survey, and with this fault, so the survey skips what is not supported
exactly if no entry is refused in this way (`Publisher.skips_iff`).
-/

namespace ComputeTopology

/-- The link that the answer gives to node `i`, direct and with the mark of its table. -/
def Exchange.link? (i : UInt32) : Exchange → Option Link
  | ⟨.link j _ peer, .ok (some l)⟩ => if j = i then some { l with kind := .direct, peer } else none
  | _ => none

theorem Exchange.eq_of_isRefused {e : Exchange} (h : e.isRefused = true) :
    ∃ i k peer resource, e = ⟨.link i k peer, .error (.notSupported resource)⟩ := by
  unfold isRefused at h
  split at h
  · exact ⟨_, _, _, _, rfl⟩
  · cases h

theorem Exchange.link?_eq_none {e : Exchange} {i : UInt32} (h : e.probe.node? ≠ some i) :
    e.link? i = none := by
  unfold link?
  split
  · exact if_neg fun hj => h (congrArg some hj)
  · rfl

theorem Exchange.link?_processors {e : Exchange} {i : UInt32} (h : e.probe = .processors) :
    e.link? i = none :=
  link?_eq_none fun hnode => by
    rw [h] at hnode
    cases hnode

theorem Exchange.link?_eq_none_of_ne {e : Exchange} {j k : Nat} (hj : j < UInt32.size)
    (hk : k < UInt32.size) (hne : j ≠ k) (h : e.probe.node? = some (.ofNat j)) :
    e.link? (.ofNat k) = none :=
  link?_eq_none fun hnode => hne (ofNat_inj hj hk (Option.some.inj (h.symm.trans hnode)))

/-- The machine never refuses a link entry. -/
def Machine.Supports {σ : Type} (M : Machine (StateM σ)) : Prop :=
  ∀ i k peer s resource, (M.answer (.link i k peer) s).1 ≠ .error (.notSupported resource)

/-- Every unsupported entry is skipped in an attempt with these exchanges and this result. -/
structure Survey.Skips (es : List Exchange)
    (result : Except Fault (Option (Snapshot × Tally))) : Prop where
  goesOn : Obeys GoesOn [] es
  never_last : ∀ e ∈ es.getLast?, e.isUnsupported = false
  /-- The links of a node are those that it was answered with, one behind the other. -/
  placed : ∀ {S tally}, result = .ok (some (S, tally)) → ∀ {i n}, S.nodes[i]? = some n →
    n.reported = es.filterMap (·.link? (.ofNat i))
  counted : ∀ {S tally}, result = .ok (some (S, tally)) →
    tally.skippedLinks = .ofNat (es.countP (·.isUnsupported))

section Count

variable {s s' : Progress} {es : List Exchange} {table : List Processor} {known : Bool}
  {i nodes : UInt32} {rn : NodeReading}

theorem countP_isUnsupported_links {peer : Bool} {answers : List (Option Link)} {index : Nat} :
    ((answers.zipIdx index).map fun x => Exchange.told (.link i (.ofNat x.2) peer) x.1).countP
      (·.isUnsupported) = answers.countP (·.isNone) := by
  induction answers generalizing index with
  | nil => rfl
  | cons a answers ih =>
    rw [List.zipIdx_cons, List.map_cons, List.countP_cons, List.countP_cons, ih,
      Exchange.isUnsupported_told_link]

theorem filterMap_link?_links {peer : Bool} {answers : List (Option Link)} {index : Nat} :
    ((answers.zipIdx index).map fun x => Exchange.told (.link i (.ofNat x.2) peer) x.1).filterMap
      (·.link? i) = found peer answers := by
  induction answers generalizing index with
  | nil => rfl
  | cons a answers ih =>
    rw [List.zipIdx_cons, List.map_cons, List.filterMap_cons, ih]
    cases a with
    | none => rfl
    | some l => simp [Exchange.told, Exchange.link?, found_cons_some]

namespace NodeReading

theorem countP_isUnsupported_calls :
    (rn.calls table known i).countP (·.isUnsupported) = Tally.Counter.skipped.amount rn := by
  have hown : (rn.ownCalls table known i).countP (·.isUnsupported) = 0 :=
    List.countP_eq_zero.2 fun e he h => by
      rw [isUnsupported_of_mem_ownCalls he] at h
      cases h
  rw [calls, linkExchanges, List.countP_append, List.countP_append, hown, Nat.zero_add,
    countP_isUnsupported_links, countP_isUnsupported_links]
  rfl

theorem countP_isUnsupported_callsFrom : ∀ {rs : List NodeReading} {index : Nat} {known : Bool},
    (callsFrom table known index rs).countP (·.isUnsupported)
      = (rs.map Tally.Counter.skipped.amount).sum
  | [], _, _ => rfl
  | _ :: _, _, _ => by
    rw [callsFrom, List.countP_append, countP_isUnsupported_calls, countP_isUnsupported_callsFrom,
      List.map_cons, List.sum_cons]

/-- The unsupported entries of a chain of readings are counted as skipped. -/
theorem ChainAlong.skippedLinks_eq {rs : List NodeReading} {index : Nat}
    (h : ChainAlong nodes index s es rs s') (hs' : s'.Knows table) :
    s'.tally.skippedLinks = s.tally.skippedLinks + .ofNat (es.countP (·.isUnsupported)) := by
  rw [(h.calls_eq hs').1, countP_isUnsupported_callsFrom]
  exact h.value_eq .skipped

theorem filterMap_link?_calls : (rn.calls table known i).filterMap (·.link? i) = rn.links := by
  have hown : (rn.ownCalls table known i).filterMap (·.link? i) = [] := by
    refine List.filterMap_eq_nil_iff.2 fun e he => ?_
    rcases of_mem_ownCalls he with hp | ⟨hp, -⟩ | ⟨k, hp⟩ | ⟨k, hp⟩ | hp <;>
      (obtain ⟨p, a⟩ := e; subst hp; rfl)
  rw [calls, linkExchanges, List.filterMap_append, List.filterMap_append, hown, List.nil_append,
    filterMap_link?_links, filterMap_link?_links, links]

theorem filterMap_link?_callsFrom :
    ∀ {rs : List NodeReading} {index k : Nat} {known : Bool}, index + rs.length ≤ UInt32.size →
      rs[k]? = some rn →
        (callsFrom table known index rs).filterMap (·.link? (.ofNat (index + k))) = rn.links
  | [], _, _, _, _, hk => by simp at hk
  | r :: rs, index, 0, known, hsize, hk => by
    obtain rfl : r = rn := by simpa using hk
    rw [List.length_cons] at hsize
    have hrest : (callsFrom table (known || r.usesTable) (index + 1) rs).filterMap
        (·.link? (.ofNat (index + 0))) = [] := by
      refine List.filterMap_eq_nil_iff.2 fun e he => ?_
      rcases of_mem_callsFrom he with ⟨j, hle, hlt, hj⟩ | ⟨hp, -⟩
      · exact Exchange.link?_eq_none_of_ne (by omega) (by omega) (by omega) hj
      · exact Exchange.link?_processors hp
    rw [callsFrom, List.filterMap_append, hrest, List.append_nil]
    exact filterMap_link?_calls
  | r :: rs, index, k + 1, known, hsize, hk => by
    have hk : rs[k]? = some rn := by simpa using hk
    have hlt := (List.getElem?_eq_some_iff.1 hk).1
    rw [List.length_cons] at hsize
    have hfirst : (r.calls table known (.ofNat index)).filterMap
        (·.link? (.ofNat (index + (k + 1)))) = [] := by
      refine List.filterMap_eq_nil_iff.2 fun e he => ?_
      rcases of_mem_calls he with hj | ⟨hp, -⟩
      · exact Exchange.link?_eq_none_of_ne (by omega) (by omega) (by omega) hj
      · exact Exchange.link?_processors hp
    have hindex : index + (k + 1) = index + 1 + k := by omega
    rw [callsFrom, List.filterMap_append, hfirst, List.nil_append, hindex]
    exact filterMap_link?_callsFrom (by omega) hk

end NodeReading

theorem Reading.skippedLinks_outcome {r : Reading} (h : r.nodes.length < UInt32.size) (t : Tally) :
    (r.outcome t).2.skippedLinks = t.skippedLinks := by
  unfold outcome
  split_ifs
  · rfl
  · rw [(Route.complete_adds (by simpa using h) t).1.tally_eq]

end Count

namespace Survey

/-- A probe that is answered with a fault is the last one, and the run fails with that fault. -/
theorem run_of_fault_mem {α σ : Type} {M : Machine (StateM σ)} {s t : σ} {probe : Probe} {f : Fault}
    (x : Survey α) (h : (⟨probe, .error f⟩, t) ∈ x.transcript M s) :
    x.run M s = (.error f, t) ∧ (x.transcript M s).getLast? = some (⟨probe, .error f⟩, t) := by
  rcases hrun : x.run M s with ⟨g | a, u⟩
  · obtain ⟨before, q, htranscript, hsilent⟩ := transcript_of_run_error x hrun
    rw [htranscript] at h ⊢
    rcases List.mem_append.1 h with h | h
    · cases hsilent _ h
    · cases List.mem_singleton.1 h
      exact ⟨rfl, List.getLast?_concat⟩
  · cases answer_of_run_ok x hrun _ h

variable {σ : Type} {M : Machine (StateM σ)} {number : UInt32} {s : σ}

/-- What an attempt finds, and how its exchanges show it. -/
theorem reads_attempt_links {S : Snapshot} {tally : Tally} {es : List Exchange}
    (h : (attempt number).Reads es (some (S, tally))) :
    (∀ {i n}, S.nodes[i]? = some n → n.reported = es.filterMap (·.link? (.ofNat i)))
      ∧ tally.skippedLinks = .ofNat (es.countP (·.isUnsupported)) := by
  obtain ⟨r, t, _, hr, rfl, -, hnodes, rfl⟩ := reads_attempt h
  obtain ⟨_, rfl, hchain⟩ := hr.exchanges
  have hlength : r.nodes.length < UInt32.size := hr.length_nodes ▸ UInt32.toNat_lt_size _
  have hknows : t.Knows (t.processors.getD []) := by
    rintro u hu
    rw [Option.mem_def.1 hu]
    rfl
  refine ⟨fun {i n} hn => ?_, ?_⟩
  · rw [hnodes] at hn
    obtain ⟨rn, hrn, hext⟩ := Reading.exists_extends_at hn
    obtain ⟨rfl, -⟩ := hchain.calls_eq hknows
    have hlinks : (NodeReading.callsFrom (t.processors.getD []) false 0 r.nodes).filterMap
        (·.link? (.ofNat (0 + i))) = rn.links :=
      NodeReading.filterMap_link?_callsFrom (by omega) hrn
    rw [Nat.zero_add] at hlinks
    rw [Node.reported, hext.filter_direct, ← Node.reported, rn.reported_node, ← hlinks]
    simp [Exchange.link?, Exchange.told]
  · have hcount := hchain.skippedLinks_eq hknows
    change (r.outcome t.tally).2.skippedLinks = _
    rw [Reading.skippedLinks_outcome hlength, hcount]
    simp [Exchange.isUnsupported, Exchange.told]

/-- An attempt skips every unsupported entry if none is refused. -/
theorem skips_of_not_refused
    (h : ∀ e ∈ (attempt number).transcript M s, e.1.isRefused = false) :
    Skips (((attempt number).transcript M s).map (·.1)) ((attempt number).run M s).1 := by
  obtain ⟨path, v, hreads, hfollows, hok⟩ := exists_follows M (attempt number) s
  obtain ⟨r, first, table, last, hcomplete, rfl⟩ := reads_attempt_script hreads
  have hlinks : ∀ {S tally}, ((attempt number).run M s).1 = .ok (some (S, tally)) →
      (attempt number).Reads (((attempt number).transcript M s).map (·.1)) (some (S, tally)) := by
    intro S tally hresult
    exact reads_of_run_ok _ (Prod.ext hresult rfl)
  refine ⟨hfollows.obeys (Reading.obeys_goesOn_script hcomplete), fun e he => ?_,
    fun hresult => (reads_attempt_links (hlinks hresult)).1,
    fun hresult => (reads_attempt_links (hlinks hresult)).2⟩
  rw [Bool.eq_false_iff]
  intro hunsupported
  obtain ⟨x, hx, rfl⟩ := List.mem_map.1 (List.mem_of_getLast? he)
  have hrefused := hfollows.of_last_isUnsupported he hunsupported
  rw [h x hx] at hrefused
  cases hrefused

/-- An attempt that a survey begins is part of its transcript. -/
theorem Begins.mem_transcript {b : Backoff} {k : Nat} {u : σ} {before : List (Exchange × σ)}
    (h : Begins M b s k u before) (hle : k ≤ b.attempts.toNat) {e : Exchange × σ}
    (he : e ∈ (attempt (.ofNat k)).transcript M u) : e ∈ (settled b).transcript M s := by
  obtain ⟨left, hleft⟩ : ∃ left, k + left = b.attempts.toNat := ⟨b.attempts.toNat - k, by omega⟩
  rw [(h.settled_eq left hleft).2, transcript_attempts_succ]
  exact List.mem_append_right _ (List.mem_append_left _ he)

end Survey

namespace Publisher

variable {σ : Type}

/-- Taking a snapshot skips every unsupported link entry, in each attempt, and does not fail
because of one. -/
structure Skips (M : Machine (StateM σ)) (p : Publisher) (s : σ) : Prop where
  attempts : ∀ {k u before}, Survey.Begins M p.backoff s k u before →
    k ≤ p.backoff.attempts.toNat →
    Survey.Skips (((Survey.attempt (.ofNat k)).transcript M u).map (·.1))
      ((Survey.attempt (.ofNat k)).run M u).1
  absorbed : ∀ {resource p' t es},
    p.take M.watched (s, []) = ((.error (.notSupported resource), p'), t, es) →
    ∀ e ∈ es.getLast?, ∀ i k peer, e.probe ≠ .link i k peer

theorem skips_of_not_refused {M : Machine (StateM σ)} {p : Publisher} {s : σ}
    (h : ∀ e ∈ (Survey.settled p.backoff).transcript M s, e.1.isRefused = false) :
    Skips M p s where
  attempts hbegins hle :=
    Survey.skips_of_not_refused fun e he => h e (hbegins.mem_transcript hle he)
  absorbed {_ _ _ es} htake e he i k peer hp := by
    have hes : _ = es := congrArg (fun out => out.2.2) ((take_watched M p s).symm.trans htake)
    rcases failsWith_of_take htake with _ | ⟨-⟩
    rw [List.getLast?_concat] at he
    obtain rfl := Option.some.inj he
    obtain rfl : _ = Probe.link i k peer := hp
    -- the fault was answered by a link entry, so that entry is refused
    obtain ⟨x, hx, hlast⟩ := List.mem_map.1 (hes ▸ List.mem_append_right _
      (List.mem_singleton_self _))
    have hrefused := h x hx
    rw [hlast] at hrefused
    cases hrefused

theorem skips_of_supports {M : Machine (StateM σ)} (h : M.Supports) (p : Publisher) (s : σ) :
    Skips M p s := by
  refine skips_of_not_refused fun e he => ?_
  rw [Bool.eq_false_iff]
  intro hrefused
  obtain ⟨i, k, peer, resource, hexchange⟩ := Exchange.eq_of_isRefused hrefused
  obtain ⟨u, hu⟩ := Survey.exists_answer_of_mem he
  rw [hexchange] at hu
  exact h i k peer u resource (congrArg Prod.fst hu)

theorem take_of_fault_mem {M : Machine (StateM σ)} {p : Publisher} {s t : σ} {probe : Probe}
    {f : Fault} (h : (⟨probe, .error f⟩, t) ∈ (Survey.settled p.backoff).transcript M s) :
    p.take M s = ((.error f, p), t) := by
  rw [take_run, (Survey.run_of_fault_mem _ h).1]
  rfl

/-- What is not supported is skipped exactly if no entry is refused. A refused entry is the last
one that is asked for, and taking the snapshot fails with its fault. -/
theorem skips_iff (M : Machine (StateM σ)) (p : Publisher) (s : σ) :
    (Skips M p s ↔ ∀ e ∈ (Survey.settled p.backoff).transcript M s, e.1.isRefused = false)
      ∧ ∀ {i k peer resource t},
        (⟨.link i k peer, .error (.notSupported resource)⟩, t)
          ∈ (Survey.settled p.backoff).transcript M s →
        p.take M s = ((.error (.notSupported resource), p), t) := by
  refine ⟨⟨fun h e he => ?_, skips_of_not_refused⟩, take_of_fault_mem⟩
  rw [Bool.eq_false_iff]
  intro hrefused
  obtain ⟨i, k, peer, resource, hexchange⟩ := Exchange.eq_of_isRefused hrefused
  obtain ⟨⟨probe, answer⟩, t⟩ := e
  cases hexchange
  refine h.absorbed ((take_watched M p s).trans (by rw [take_of_fault_mem he]))
    ⟨.link i k peer, .error (.notSupported resource)⟩ ?_ i k peer rfl
  rw [List.getLast?_map, (Survey.run_of_fault_mem _ he).2]
  rfl

/-- A machine that answers as the capture does that it stands at, but refuses the first entry of
the first node. -/
def refusing : Machine (StateM Capture) where
  answer
    | .link i k peer => fun c =>
      if i = 0 ∧ k = 0 ∧ peer = false then (.error (.notSupported "link"), c)
      else (c.answer (.link i k peer), c)
    | probe => fun c => (c.answer probe, c)
  wait _ := fun c => ((), c)

/-- A host with two GPUs. -/
def host : Capture :=
  let pci (target : UInt32) := some (CapturedNode.directLink target .pciExpress 20)
  { nodes := [(CapturedNode.cpu 4).addLink (pci 1) |>.addLink (pci 2),
      (CapturedNode.gpu 7).addLink (pci 0), (CapturedNode.gpu 8).addLink (pci 0)] }

theorem refusing_not_skips : ¬ Skips refusing {} host := by
  intro h
  have hfault : (({} : Publisher).take refusing.watched (host, [])).1.1
      = .error (.notSupported "link") := by decide +kernel
  have hlast : (({} : Publisher).take refusing.watched (host, [])).2.2.getLast?.map (·.probe)
      = some (.link 0 0 false) := by decide +kernel
  obtain ⟨e, he, hp⟩ := Option.map_eq_some_iff.1 hlast
  exact h.absorbed (Prod.ext (Prod.ext hfault rfl) rfl) e he 0 0 false hp

end Publisher

/-- A capture refuses no entry: what it does not support is answered with no link. -/
theorem Capture.skips (c : Capture) (p : Publisher) : p.Skips machine c := by
  refine Publisher.skips_of_supports (fun i k peer u resource h => ?_) p c
  have h : u.answer (.link i k peer) = .error (.notSupported resource) := h
  obtain ⟨_, _, hf⟩ := unavailable_of_answer h
  cases hf

namespace Sysfs

variable {fs : Files Id} {layout : Layout} {X : Exposure} {i id : UInt32} {f : Fault}

theorem unavailable_of_mapError {α : Type} {x : Except FileFault α}
    (h : x.mapError FileFault.toFault = .error f) :
    ∃ resource detail, f = .unavailable resource detail := by
  rcases x with e | a <;> cases h
  exact ⟨_, _, rfl⟩

theorem unavailable_of_linkOfSheet {sheet : PropertySheet}
    (h : linkOfSheet X i id sheet = .error f) :
    ∃ resource detail, f = .unavailable resource detail := by
  unfold linkOfSheet at h
  rcases hfrom : (sheet.uint32 "node_from").mapError FileFault.toFault with e | source <;>
    rw [hfrom] at h
  · cases h
    exact unavailable_of_mapError hfrom
  rw [ok_bind] at h
  split_ifs at h
  · cases h
    exact ⟨_, _, rfl⟩
  rcases hto : (sheet.uint32 "node_to").mapError FileFault.toFault with e | target <;>
    rw [hto] at h
  · cases h
    exact unavailable_of_mapError hto
  rw [ok_bind] at h
  split at h
  · cases h
  · rcases hlink : (sheet.link i _).mapError FileFault.toFault with e | l <;> rw [hlink] at h <;>
      cases h
    exact unavailable_of_mapError hlink

/-- Nor does the driver's tree refuse one: an entry without a file, or one that leads to a node
that is not exposed, is answered with no link. -/
theorem skips (fs : Files Id) (layout : Layout) (wait : UInt64 → Id Unit) (X : Exposure)
    (p : Publisher) : p.Skips (machine fs layout wait) X := by
  refine Publisher.skips_of_supports (fun i k peer u resource h => ?_) p X
  obtain ⟨_, _, hf⟩ : ∃ r d, Fault.notSupported resource = .unavailable r d := by
    rcases hid : u.number i with e | id
    · simp only [machine, answer, hid] at h
      obtain rfl := Except.error.inj h
      unfold Exposure.number at hid
      split at hid <;> cases hid
    · have h : shown fs layout u (.link i k peer) = .error (.notSupported resource) := h
      rw [shown_link hid] at h
      split at h
      · exact unavailable_of_linkOfSheet h
      · cases h
      · cases h
  cases hf

end Sysfs

end ComputeTopology
