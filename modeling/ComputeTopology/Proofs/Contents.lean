import ComputeTopology.Proofs.Unseen

/-!
# What a node contains, whatever else is exposed

The banks, the caches and the properties of a node are read from the directory of its own number, so
it does not matter to them which other nodes are exposed, with one exception. The caches that a CPU
node has from its processors are looked up under the index, not under the number, and the index
moves when a node before it is excluded. So a node contains the same under both indices if and only
if its processors give the same caches under both (`Sysfs.SameFiles.contents_eq_iff`).
-/

namespace ComputeTopology

/-- The node apart from its links. -/
def Node.contents (n : Node) : Node :=
  { n with links := [], profile := { n.profile with links := 0 } }

theorem Node.Extends.contents_eq {n' n : Node} (h : n'.Extends n) : n'.contents = n.contents := by
  obtain ⟨routes, -, rfl⟩ := h
  rfl

namespace NodeReading

variable {answer answer' : (p : Probe) → Except Fault p.Answer} {i i' : UInt32}
  {r r' : NodeReading}

/-- About node `i'` the second machine says what the first one says about node `i`, apart from
links and from what the processors have. -/
structure ToldAlike (answer answer' : (p : Probe) → Except Fault p.Answer) (i i' : UInt32) :
    Prop where
  report : answer' (.report i') = answer (.report i)
  bank : ∀ b, answer' (.bank i' b) = answer (.bank i b)
  cache : ∀ k, answer' (.cache i' k) = answer (.cache i k)
  processors : answer' .processors = answer .processors

variable (halike : ToldAlike answer answer' i i') (h : r.Told answer i) (h' : r'.Told answer' i')

include halike h h'

theorem ToldAlike.report_eq : r'.report = r.report := by
  have hreport := h'.report
  rw [halike.report, h.report] at hreport
  exact (Except.ok.inj hreport).symm

theorem ToldAlike.profile_eq : r'.profile = r.profile := by
  have hreport := halike.report_eq h h'
  have hprofile := h'.profile
  rw [hreport] at hprofile
  rcases h.profile with ⟨hcores, hp⟩ | ⟨hcores, table, htable, hp⟩
  · rcases hprofile with ⟨-, hp'⟩ | ⟨hcores', -⟩
    · rw [hp, hp']
    · exact absurd hcores hcores'
  · rcases hprofile with ⟨hcores', -⟩ | ⟨-, table', htable', hp'⟩
    · exact absurd hcores' hcores
    · rw [halike.processors, htable] at htable'
      rw [hp, hp', Except.ok.inj htable']

theorem ToldAlike.banks_eq : r'.banks = r.banks := by
  refine ReadFrom.eq_of_length_eq h'.banks ?_ ?_
  · simp only [halike.bank]
    exact h.banks
  · rw [h'.banks_length, h.banks_length, halike.report_eq h h']

theorem ToldAlike.caches_eq (hnot : ¬ (r.profile.caches = 0 ∧ r.profile.isGpu = false)) :
    r'.caches = r.caches := by
  have hcaches := h.caches
  have hcaches' := h'.caches
  rw [halike.profile_eq h h'] at hcaches'
  unfold CachesTold at hcaches hcaches'
  split_ifs at hcaches hcaches' with hcount hgpu
  · refine ReadFrom.eq_of_length_eq hcaches'.2 ?_ (hcaches'.1.trans hcaches.1.symm)
    simp only [halike.cache]
    exact hcaches.2
  · exact hcaches'.trans hcaches.symm
  · exact absurd ⟨not_not.1 hcount, Bool.eq_false_iff.2 hgpu⟩ hnot

theorem ToldAlike.exists_processorCaches (hcount : r.profile.caches = 0)
    (hgpu : r.profile.isGpu = false) : ∃ table, answer .processors = .ok table
      ∧ answer (.processorCaches i table) = .ok r.caches
      ∧ answer' (.processorCaches i' table) = .ok r'.caches := by
  have hcaches := h.caches
  have hcaches' := h'.caches
  rw [halike.profile_eq h h'] at hcaches'
  unfold CachesTold at hcaches hcaches'
  rw [if_neg (not_not.2 hcount), if_neg (Bool.eq_false_iff.1 hgpu)] at hcaches hcaches'
  obtain ⟨table, htable, hread⟩ := hcaches
  obtain ⟨table', htable', hread'⟩ := hcaches'
  rw [halike.processors, htable] at htable'
  obtain rfl := Except.ok.inj htable'
  exact ⟨table, htable, hread, hread'⟩

theorem ToldAlike.contents_node_eq_iff :
    r'.node.contents = r.node.contents ↔ r'.caches = r.caches := by
  have hbanks := halike.banks_eq h h'
  have hprofile := halike.profile_eq h h'
  refine ⟨fun heq => congrArg Node.caches heq, fun heq => ?_⟩
  simp only [node, Node.contents, hbanks, hprofile, heq]

end NodeReading

namespace Sysfs

variable {fs fs' : Files Id} {layout : Layout} {i i' id : UInt32} {n n' : Node}

/-- The two file systems have the same files. What can be opened may differ. -/
structure SameFiles (fs fs' : Files Id) (layout : Layout) : Prop extends
    AgreeOnProcessors fs fs' layout where
  topology : AgreeBelow fs fs' layout.topology

theorem SameFiles.node (h : SameFiles fs fs' layout) (id : UInt32) :
    AgreeOnNode fs fs' layout id :=
  (h.topology.step (by decide +kernel : Plain "nodes")).step (plain_decimal id)

/-- A survey publishes the node with the driver's number `id` under index `i` as `n`. -/
def Publishes (fs : Files Id) (layout : Layout) (id i : UInt32) (n : Node) : Prop :=
  ∃ (wait : UInt64 → Id Unit) (p p' : Publisher) (e X : Exposure) (S : Snapshot),
    p.take (machine fs layout wait) e = ((.ok (), p'), X) ∧ p'.snapshot = .ok S
      ∧ X.number i = .ok id ∧ S.nodes[i.toNat]? = some n

/-- A CPU node for which the driver counts no caches. -/
def LeavesCaches (fs : Files Id) (layout : Layout) (id : UInt32) : Prop :=
  ∃ r, result (readReport fs layout id) = .ok r
    ∧ r.profile.caches = 0 ∧ r.profile.isGpu = false

theorem Publishes.exists_told (h : Publishes fs layout id i n) :
    ∃ (X : Exposure) (rn : NodeReading), X.number i = .ok id
      ∧ rn.Told (shown fs layout X) i ∧ n.Extends rn.node := by
  obtain ⟨_, _, _, _, X, S, htake, hS, hi, hn⟩ := h
  obtain ⟨-, S', tally, heval, rfl⟩ := exists_shown htake
  obtain rfl := Except.ok.inj hS
  obtain ⟨rn, htold, hext, -⟩ := Survey.exists_told_node heval hn
  rw [UInt32.ofNat_toNat] at htold
  exact ⟨X, rn, hi, htold, hext⟩

theorem SameFiles.toldAlike (h : SameFiles fs fs' layout) {X X' : Exposure}
    (hi : X.number i = .ok id) (hi' : X'.number i' = .ok id) :
    NodeReading.ToldAlike (shown fs layout X) (shown fs' layout X') i i' where
  report := by rw [shown_report hi, shown_report hi', readReport_congr (h.node id)]
  bank b := by
    rw [shown_bank hi, shown_bank hi', readSheet_congr ((h.node id).entryFile (by decide +kernel) b)]
  cache k := by
    rw [shown_cache hi, shown_cache hi',
      readSheet_congr ((h.node id).entryFile (by decide +kernel) k)]
  processors := by rw [shown_processors, shown_processors, processorTable_congr h.processorTable]

theorem leavesCaches_iff {X : Exposure} {rn : NodeReading} (hi : X.number i = .ok id)
    (h : rn.Told (shown fs layout X) i) :
    LeavesCaches fs layout id ↔ rn.profile.caches = 0 ∧ rn.profile.isGpu = false := by
  have hreport := h.report
  rw [shown_report hi, mapError_eq_ok] at hreport
  have hsame : rn.profile.caches = rn.report.profile.caches
      ∧ rn.profile.gpuId = rn.report.profile.gpuId := by
    rcases h.profile with ⟨-, hp⟩ | ⟨-, table, -, hp⟩ <;> rw [hp]
    · exact ⟨rfl, rfl⟩
    · obtain ⟨-, hcaches, -, hgpuId⟩ := rn.report.profile.nameAfter_counts table
      exact ⟨hcaches, hgpuId⟩
  rw [Profile.isGpu, hsame.1, hsame.2]
  constructor
  · rintro ⟨r, hr, hcaches, hgpu⟩
    cases hreport.symm.trans hr
    exact ⟨hcaches, hgpu⟩
  · rintro ⟨hcaches, hgpu⟩
    exact ⟨rn.report, hreport, hcaches, hgpu⟩

/-- Excluding other nodes leaves a node's banks, its properties and the caches that the driver
counts as they are. Caches that are left to the processors stay if both indices give the same. -/
theorem SameFiles.contents_eq_iff (hfiles : SameFiles fs fs' layout)
    (h : Publishes fs layout id i n) (h' : Publishes fs' layout id i' n') :
    n'.banks = n.banks
      ∧ { n'.profile with caches := 0, links := 0 } = { n.profile with caches := 0, links := 0 }
      ∧ (n'.contents = n.contents ↔ (LeavesCaches fs layout id → ∀ table,
        result (ProcessorTable.read fs layout.processorTable) = .ok table →
          result (readProcessorCaches fs layout i' table)
            = result (readProcessorCaches fs layout i table))) := by
  obtain ⟨X, rn, hi, htold, hext⟩ := h.exists_told
  obtain ⟨X', rn', hi', htold', hext'⟩ := h'.exists_told
  have halike := hfiles.toldAlike hi hi'
  have hbanks := halike.banks_eq htold htold'
  have hprofile := halike.profile_eq htold htold'
  refine ⟨?_, ?_, ?_⟩
  · have hn := congrArg Node.banks hext.contents_eq
    have hn' := congrArg Node.banks hext'.contents_eq
    exact hn'.trans (hbanks.trans hn.symm)
  · have hn := congrArg (fun m => { m.profile with caches := 0 }) hext.contents_eq
    have hn' := congrArg (fun m => { m.profile with caches := 0 }) hext'.contents_eq
    refine hn'.trans (Eq.trans ?_ hn.symm)
    simp only [NodeReading.node, Node.contents, hprofile]
  rw [hext.contents_eq, hext'.contents_eq, halike.contents_node_eq_iff htold htold',
    leavesCaches_iff hi htold]
  by_cases hleft : rn.profile.caches = 0 ∧ rn.profile.isGpu = false
  -- both surveys have read the processors' caches, so it is enough to compare what they found
  · obtain ⟨table, htable, hread, hread'⟩ :=
      halike.exists_processorCaches htold htold' hleft.1 hleft.2
    rw [shown_processors, mapError_eq_ok] at htable
    rw [shown_processorCaches, mapError_eq_ok] at hread hread'
    rw [readProcessorCaches_congr hfiles.memoryNodes hfiles.processors] at hread'
    constructor
    · intro heq _ table' htable'
      obtain rfl := Except.ok.inj (htable.symm.trans htable')
      rw [hread, hread', heq]
    · intro heq
      exact Except.ok.inj (hread'.symm.trans ((heq hleft table htable).trans hread))
  · exact ⟨fun _ h => absurd h hleft, fun _ => halike.caches_eq htold htold' hleft⟩

section Processors

variable {table : List Processor} {directory : String}

theorem result_readProcessor {cpu : UInt32} {indices : List (UInt32 × String)}
    {g : UInt32 × String → Option Cache}
    (hkind : (fs.isDirectory (joinPath directory "cache")).run = true)
    (hindices : result (numberedDirectories fs (joinPath directory "cache") "index") = .ok indices)
    (hindex : ∀ d ∈ indices, result (readIndex fs table cpu d.2) = .ok (g d)) :
    result (readProcessor fs table cpu directory) = .ok (indices.filterMap g) := by
  simp only [readProcessor, result_bind, result_lift, ok_bind, hkind, if_true, hindices,
    result_mapM hindex, result_pure, List.filterMap_map, Function.id_comp]

theorem result_readProcessorCaches {cpus : List (UInt32 × String)}
    {g : UInt32 × String → List Cache}
    (hdirectory : (processorDirectory fs layout i).run = some directory)
    (hcpus : result (numberedDirectories fs directory "cpu") = .ok cpus)
    (hprocessor : ∀ d ∈ cpus, result (readProcessor fs table d.1 d.2) = .ok (g d)) :
    result (readProcessorCaches fs layout i table) = .ok (cpus.map g).flatten := by
  have hlift : result (ExceptT.lift (processorDirectory fs layout i)) = .ok (some directory) :=
    congrArg Except.ok hdirectory
  simp only [readProcessorCaches, result_bind, hlift, ok_bind, hcpus, result_mapM hprocessor,
    result_pure]

end Processors

def gappedCache : Cache where
  processorIdLow := 0
  level := 1
  sizeKb := 32
  lineSize := 64
  linesPerTag := 1
  associativity := 8
  kinds := kindsOfType "Data"
  siblings := 1 :: List.replicate 255 0

def gappedTable : List Processor :=
  [{ number := 0, apicId := 0, model := "" }]

theorem readProcessorCaches_gapped (opens : Bool) :
    result (readProcessorCaches (gappedFiles opens) gappedLayout 2 gappedTable)
      = .ok [gappedCache] := by
  have hindices : result (numberedDirectories (gappedFiles opens)
      (joinPath "node/node2/cpu0" "cache") "index") = .ok [(0, "node/node2/cpu0/cache/index0")] :=
    result_numberedDirectories [.ok "index0"]
      (toOption_eq_some (by cases opens <;> decide +kernel))
      (toOption_eq_some (by cases opens <;> decide +kernel)) (by decide +kernel)
  have hindex : result (readIndex (gappedFiles opens) gappedTable 0
      "node/node2/cpu0/cache/index0") = .ok (some gappedCache) :=
    toOption_eq_some (by cases opens <;> decide +kernel)
  have hprocessor : result (readProcessor (gappedFiles opens) gappedTable 0 "node/node2/cpu0")
      = .ok [gappedCache] :=
    result_readProcessor (g := fun _ => some gappedCache) (by cases opens <;> decide +kernel)
      hindices fun d hd => by rwa [List.mem_singleton.1 hd]
  have hcpus : result (numberedDirectories (gappedFiles opens) "node/node2" "cpu")
      = .ok [(0, "node/node2/cpu0")] :=
    result_numberedDirectories [.ok "cpu0"]
      (toOption_eq_some (by cases opens <;> decide +kernel))
      (toOption_eq_some (by cases opens <;> decide +kernel)) (by decide +kernel)
  exact result_readProcessorCaches (g := fun _ => [gappedCache])
    (by cases opens <;> decide +kernel) hcpus fun d hd => by rwa [List.mem_singleton.1 hd]

/-- The answers to be had when the GPU is exposed, with the second host's caches read already. -/
def wholeAnswer : (p : Probe) → Except Fault p.Answer
  | .processorCaches i table =>
    if i = 2 ∧ table = gappedTable then .ok [gappedCache]
    else gappedAnswer true (.processorCaches i table)
  | p => gappedAnswer true p

theorem shown_whole :
    shown (gappedFiles true) gappedLayout (gappedExposure true) = wholeAnswer := by
  rw [shown_gapped]
  funext p
  cases p with
  | processorCaches i table =>
    by_cases hcaches : i = 2 ∧ table = gappedTable
    · obtain ⟨rfl, rfl⟩ := hcaches
      exact mapError_eq_ok.2 (readProcessorCaches_gapped true)
    · exact (if_neg hcaches).symm
  | _ => rfl

def sizes (n : Node) : Nat × Nat :=
  (n.links.length, n.caches.length)

theorem sizes_whole : ((Survey.attempt 1).eval wholeAnswer).toOption.join.map
    (·.1.nodes.map sizes) = some [(2, 1), (0, 0), (1, 1)] := by
  decide +kernel

theorem sizes_excluded : ((Survey.attempt 1).eval (gappedAnswer false)).toOption.join.map
    (·.1.nodes.map sizes) = some [(1, 1), (1, 0)] := by
  decide +kernel

theorem exists_publishes_gapped (id i : UInt32) (x : Nat × Nat) {opens : Bool}
    {answer : (p : Probe) → Except Fault p.Answer}
    (hanswer : shown (gappedFiles opens) gappedLayout (gappedExposure opens) = answer)
    {l : List (Nat × Nat)} (h : ((Survey.attempt 1).eval answer).toOption.join.map
      (·.1.nodes.map sizes) = some l)
    (hi : (gappedExposure opens)[i.toNat]? = some id) (hx : l[i.toNat]? = some x) :
    ∃ n, Publishes (gappedFiles opens) gappedLayout id i n ∧ sizes n = x := by
  subst hanswer
  obtain ⟨⟨S, tally⟩, hjoin, rfl⟩ := Option.map_eq_some_iff.1 h
  rw [List.getElem?_map] at hx
  obtain ⟨n, hn, hx⟩ := Option.map_eq_some_iff.1 hx
  have heval := toOption_eq_some (Option.join_eq_some_iff.1 hjoin)
  have htake : Publisher.take (machine (gappedFiles opens) gappedLayout fun _ => ()) {} []
      = ((.ok (), Publisher.publish {} S tally), gappedExposure opens) :=
    take_of_eval (readExposure_gapped opens) heval {} []
  exact ⟨n, ⟨_, _, _, _, _, S, htake, rfl, Exposure.number_eq_ok.2 hi, hn⟩, hx⟩

theorem sameFiles_gapped : SameFiles (gappedFiles true) (gappedFiles false) gappedLayout where
  memoryNodes _ _ := ⟨rfl, rfl, rfl⟩
  processors _ _ := ⟨rfl, rfl, rfl⟩
  processorTable := ⟨rfl, rfl, rfl⟩
  topology _ _ := ⟨rfl, rfl, rfl⟩

theorem SameFiles.contents_eq_iff_gapped :
    SameFiles (gappedFiles true) (gappedFiles false) gappedLayout
      ∧ ∃ n n', Publishes (gappedFiles true) gappedLayout 0 0 n
        ∧ Publishes (gappedFiles false) gappedLayout 0 0 n'
        ∧ n.links.length = 2 ∧ n'.links.length = 1 ∧ n'.contents = n.contents := by
  obtain ⟨n, hn, hsizes⟩ := exists_publishes_gapped 0 0 (2, 1) shown_whole sizes_whole
    (by decide) (by decide)
  obtain ⟨n', hn', hsizes'⟩ := exists_publishes_gapped 0 0 (1, 1) (shown_gapped false) sizes_excluded
    (by decide) (by decide)
  refine ⟨sameFiles_gapped, n, n', hn, hn', congrArg Prod.fst hsizes, congrArg Prod.fst hsizes', ?_⟩
  obtain ⟨-, -, hcontents⟩ := SameFiles.contents_eq_iff sameFiles_gapped hn hn'
  exact hcontents.2 fun _ _ _ => rfl

/-- Without the GPU the second host has another index, and no caches. -/
theorem SameFiles.contents_ne_gapped :
    SameFiles (gappedFiles true) (gappedFiles false) gappedLayout
      ∧ ∃ n n', Publishes (gappedFiles true) gappedLayout 2 2 n
        ∧ Publishes (gappedFiles false) gappedLayout 2 1 n'
        ∧ n.caches.length = 1 ∧ n'.caches.length = 0 ∧ n'.contents ≠ n.contents := by
  obtain ⟨n, hn, hsizes⟩ := exists_publishes_gapped 2 2 (1, 1) shown_whole sizes_whole
    (by decide) (by decide)
  obtain ⟨n', hn', hsizes'⟩ := exists_publishes_gapped 2 1 (1, 0) (shown_gapped false) sizes_excluded
    (by decide) (by decide)
  have hone : n.caches.length = 1 := congrArg Prod.snd hsizes
  have hnone : n'.caches.length = 0 := congrArg Prod.snd hsizes'
  refine ⟨sameFiles_gapped, n, n', hn, hn', hone, hnone, fun heq => ?_⟩
  have hsame : n'.caches.length = n.caches.length := congrArg (·.caches.length) heq
  omega

end Sysfs

end ComputeTopology
