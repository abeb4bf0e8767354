import ComputeTopology.Proofs.Permitted

/-!
# The script of an attempt

What an attempt asks, and in which order, is laid down by the answers alone. `Reading.script` writes
it out: node after node the report, the processor table at its first use, the banks, the caches and
the two link tables, all between two readings of the generation. An attempt that is answered to its
end has gone through the script of what it read (`Survey.reads_attempt_script`).
-/

namespace ComputeTopology

/-- The processor table is asked for unless it is known. -/
def tableCall (table : List Processor) (known : Bool) : List Exchange :=
  if known then [] else [.told .processors table]

/-- The reported caches, or for a node that is not a GPU the caches that the processors show. -/
def cacheCalls (table : List Processor) (known : Bool) (i : UInt32) (p : Profile)
    (caches : List Cache) : List Exchange :=
  if p.caches ≠ 0 then caches.zipIdx.map fun x => .told (.cache i (.ofNat x.2)) x.1
  else if p.isGpu then []
  else tableCall table known ++ [.told (.processorCaches i table) caches]

namespace NodeReading

/-- The node has CPU cores and gets its name from the processor table. -/
def isNamed (r : NodeReading) : Bool :=
  r.report.profile.cpuCores ≠ 0

/-- The processor table is needed for the name of the node or for its caches. -/
def usesTable (r : NodeReading) : Bool :=
  r.isNamed || r.report.profile.caches = 0 && !r.report.profile.isGpu

/-- The processor table is needed first for the name of the node. -/
def nameCalls (table : List Processor) (known : Bool) (r : NodeReading) : List Exchange :=
  if r.isNamed then tableCall table known else []

def bankCalls (i : UInt32) (r : NodeReading) : List Exchange :=
  r.banks.zipIdx.map fun x => .told (.bank i (.ofNat x.2)) x.1

/-- The exchanges about node `i` before those about its links. -/
def ownCalls (table : List Processor) (known : Bool) (i : UInt32) (r : NodeReading) :
    List Exchange :=
  .told (.report i) r.report :: r.nameCalls table known ++ r.bankCalls i
    ++ cacheCalls table (known || r.isNamed) i r.report.profile r.caches

def calls (table : List Processor) (known : Bool) (i : UInt32) (r : NodeReading) :
    List Exchange :=
  r.ownCalls table known i ++ r.linkExchanges i

/-- The exchanges about the nodes from `index` on. -/
def callsFrom (table : List Processor) : Bool → Nat → List NodeReading → List Exchange
  | _, _, [] => []
  | known, index, r :: rs =>
    r.calls table known (.ofNat index) ++ callsFrom table (known || r.usesTable) (index + 1) rs

/-- Of every table as much was read as was reported, of the link tables at most until the node has a
link for each of the other `nodes`. -/
structure Complete (nodes : UInt32) (r : NodeReading) : Prop where
  banks : r.banks.length = r.report.profile.banks.toNat
  caches : r.report.profile.caches ≠ 0 → r.caches.length = r.report.profile.caches.toNat
  standard : Filled (nodes.toNat - 1) 0
    (r.report.profile.links.toNat - r.report.peerLinks.toNat) r.standard
  peers : Filled (nodes.toNat - 1) (found false r.standard).length r.report.peerLinks.toNat r.peers

end NodeReading

namespace Reading

/-- Every node of the platform was read, and each completely. -/
structure Complete (r : Reading) : Prop where
  length_nodes : r.nodes.length = r.platform.nodes.toNat
  nodes : ∀ x ∈ r.nodes, x.Complete r.platform.nodes

/-- All exchanges of an attempt that reads this. -/
def script (r : Reading) (first : UInt32) (table : List Processor) (last : UInt32) :
    List Exchange :=
  .told .generation first :: .told .platform r.platform
    :: NodeReading.callsFrom table false 0 r.nodes ++ [.told .generation last]

end Reading

/-- If a processor table is remembered, it is this one. -/
def Progress.Knows (s : Progress) (table : List Processor) : Prop :=
  ∀ t ∈ s.processors, t = table

namespace Course

variable {s s' : Progress} {es : List Exchange} {table : List Processor}

theorem processors_calls {t : List Processor} (h : processors.Reads s es t s')
    (hs' : s'.Knows table) : t = table ∧ es = tableCall table s.processors.isSome
      ∧ s.Knows table ∧ s'.processors.isSome = true := by
  obtain ⟨ht, -, hcase⟩ := reads_processors h
  obtain rfl := hs' t ht
  rcases hcase with ⟨hs, rfl⟩ | ⟨hs, rfl⟩ <;> simp [tableCall, Progress.Knows, hs, ht]

theorem named_calls {p p' : Profile} (h : (named p).Reads s es p' s') (hs' : s'.Knows table) :
    es = (if p.cpuCores ≠ 0 then tableCall table s.processors.isSome else []) ∧ s.Knows table
      ∧ s'.processors.isSome = (s.processors.isSome || p.cpuCores ≠ 0) := by
  rcases reads_named h with ⟨hcores, -, rfl, rfl⟩ | ⟨hcores, t, hprocessors, -⟩
  · simp [hcores, hs']
  · obtain ⟨-, rfl, hs, hsome⟩ := processors_calls hprocessors hs'
    simp [hcores, hs, hsome]

theorem caches_calls {i : UInt32} {p : Profile} {l : List Cache}
    (h : (caches i p).Reads s es l s') (hs' : s'.Knows table) :
    es = cacheCalls table s.processors.isSome i p l ∧ (p.caches ≠ 0 → l.length = p.caches.toNat)
      ∧ s.Knows table
      ∧ s'.processors.isSome = (s.processors.isSome || p.caches = 0 && !p.isGpu) := by
  rcases reads_caches h with ⟨hcaches, hlen, rfl, rfl⟩ | ⟨hcaches, hgpu, rfl, rfl, rfl⟩
    | ⟨hcaches, hgpu, _, t, hprocessors, rfl⟩
  · simp [cacheCalls, hcaches, hlen, hs']
  · simp [cacheCalls, hcaches, hgpu, hs']
  · obtain ⟨rfl, rfl, hs, hsome⟩ := processors_calls hprocessors hs'
    simp [cacheCalls, hcaches, hgpu, hs, hsome]

end Course

namespace NodeReading

variable {nodes i : UInt32} {s s' : Progress} {es : List Exchange} {table : List Processor}

/-- What is asked about a node, if the table that is remembered in the end is `table`. -/
theorem Along.calls_eq {r : NodeReading} (h : r.Along nodes i s es s') (hs' : s'.Knows table) :
    es = r.calls table s.processors.isSome i ∧ r.Complete nodes ∧ s.Knows table
      ∧ s'.processors.isSome = (s.processors.isSome || r.usesTable) := by
  obtain ⟨_, _, s₁, s₂, hnamed, hcaches, hprocessors, -, rfl⟩ := h.exchanges
  obtain ⟨hbanks, hcount, hlinks, hgpuId⟩ := Course.reads_named_counts hnamed
  have hgpu : r.profile.isGpu = r.report.profile.isGpu := by
    rw [Profile.isGpu, Profile.isGpu, hgpuId]
  -- a table that is known later was not another one before, so the course is gone through backwards
  have hs₂ : s₂.Knows table := by rwa [Progress.Knows, ← hprocessors]
  obtain ⟨rfl, hlen, hs₁, hsome₂⟩ := Course.caches_calls hcaches hs₂
  obtain ⟨rfl, hs, hsome₁⟩ := Course.named_calls hnamed hs₁
  rw [hcount] at hlen
  refine ⟨?_, ⟨h.banks_length.trans (by rw [hbanks]), hlen, ?_, h.peers_filled⟩, hs, ?_⟩
  · simp only [calls, ownCalls, nameCalls, bankCalls, cacheCalls, isNamed, hcount, hgpu, hsome₁]
    simp
  · rw [← hlinks]
    exact h.standard_filled
  · rw [hprocessors, hsome₂, hsome₁, hcount, hgpu, usesTable, isNamed, Bool.or_assoc]

theorem ChainAlong.calls_eq :
    ∀ {rs : List NodeReading} {index : Nat} {s : Progress} {es : List Exchange},
      ChainAlong nodes index s es rs s' → s'.Knows table →
        es = callsFrom table s.processors.isSome index rs ∧ (∀ r ∈ rs, r.Complete nodes)
          ∧ s.Knows table
  | [], _, _, _, ⟨rfl, rfl⟩, hs' => ⟨rfl, by simp, hs'⟩
  | r :: rs, index, s, _, ⟨es₁, s₁, es₂, hr, hrs, rfl⟩, hs' => by
    obtain ⟨rfl, hcomplete, hs₁⟩ := hrs.calls_eq hs'
    obtain ⟨rfl, hr', hs, hsome⟩ := hr.calls_eq hs₁
    refine ⟨by rw [callsFrom, hsome], ?_, hs⟩
    simpa using ⟨hr', hcomplete⟩

end NodeReading

/-- An attempt goes through the script of what it reads. -/
theorem Survey.reads_attempt_script {number : UInt32} {es : List Exchange}
    {v : Option (Snapshot × Tally)} (h : (attempt number).Reads es v) :
    ∃ (r : Reading) (first : UInt32) (table : List Processor) (last : UInt32),
      r.Complete ∧ es = r.script first table last := by
  obtain ⟨first, last, _, c, hc, -, rfl⟩ := reads_attempt_content h
  obtain ⟨r, s, hr, -⟩ := reads_content hc
  obtain ⟨_, rfl, hchain⟩ := hr.exchanges
  -- if no table is remembered in the end, none was asked for, and any will do
  have hknows : s.Knows (s.processors.getD []) := by
    rintro t ht
    rw [Option.mem_def.1 ht]
    rfl
  obtain ⟨rfl, hcomplete, -⟩ := hchain.calls_eq hknows
  exact ⟨r, first, _, last, ⟨hr.length_nodes, hcomplete⟩, rfl⟩

end ComputeTopology
