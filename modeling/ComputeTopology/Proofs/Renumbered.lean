import ComputeTopology.Proofs.Surveyed
import ComputeTopology.Proofs.Unchanging

/-!
# Links between renumbered nodes

A node is read under its index from the directory of its own number (`Sysfs.shown_report` and its
siblings), and the ends of a link are translated from numbers to indices. So the nodes of a snapshot
are the exposed nodes without gaps (`Sysfs.Renumbered`), and the direct links of a node are, in
order, the entries of its two tables that lead to exposed nodes (`Sysfs.OfTables.links_eq`). Every
entry is read while there is room for its link, and what is read is well formed
(`Sysfs.OfTables.says`): an entry is passed over only if it has no file or leads to a node that is
not exposed (`Sysfs.EntrySays`).
-/

namespace ComputeTopology

namespace PropertySheet

variable {s : PropertySheet}

/-- The link count is the sum of the two counts on the sheet, if 32 bits can hold it. -/
theorem links_commonProfile {gpuId peerLinks : UInt32} :
    Ensures (fun p => ∃ standard, s.uint32 "io_links_count" = .ok standard
      ∧ p.links = .ofNat (min (standard.toNat + peerLinks.toNat) (UInt32.size - 1)))
      (s.commonProfile gpuId peerLinks) := by
  unfold commonProfile
  iterate 4 refine ensures_bind fun _ _ => ?_
  refine ensures_bind fun standard hstandard => ?_
  repeat refine ensures_bind fun _ _ => ?_
  exact ensures_pure ⟨standard, hstandard, rfl⟩

theorem links_computeProfile {p : Profile} :
    Ensures (fun q => q.links = p.links) (s.computeProfile p) := by
  unfold computeProfile
  split_ifs
  · exact ensures_pure rfl
  all_goals
    dsimp only
    refine ensures_bind fun _ _ => ensures_bind fun target _ => ?_
    split_ifs <;> exact ensures_pure rfl

theorem counts_report {gpuId : UInt32} :
    Ensures (fun r => s.uint32 "p2p_links_count" = .ok r.peerLinks ∧ ∃ standard,
      s.uint32 "io_links_count" = .ok standard
        ∧ r.profile.links = .ofNat (min (standard.toNat + r.peerLinks.toNat) (UInt32.size - 1)))
      (s.report gpuId) := by
  unfold report
  refine ensures_bind fun peers hpeers => ensures_bind fun p hp => ensures_bind fun q hq => ?_
  obtain ⟨standard, hstandard, hlinks⟩ := links_commonProfile p hp
  exact ensures_pure ⟨hpeers, standard, hstandard, (links_computeProfile q hq).trans hlinks⟩

theorem ends_link {source target : UInt32} :
    Ensures (fun l => l.source = source ∧ l.target = target) (s.link source target) := by
  unfold link
  repeat refine ensures_bind fun _ _ => ?_
  exact ensures_pure ⟨rfl, rfl⟩

theorem nodes_platform {nodes : UInt32} :
    Ensures (fun p => p.nodes = nodes) (s.platform nodes) := by
  unfold platform
  repeat refine ensures_bind fun _ _ => ?_
  exact ensures_pure rfl

end PropertySheet

namespace Sysfs

variable {fs : Files Id} {layout : Layout} {X : Exposure} {i id : UInt32}

section Shown

variable (hi : X.number i = .ok id)

include hi

theorem shown_report : shown fs layout X (.report i)
    = (result (readReport fs layout id)).mapError FileFault.toFault := by
  simp only [shown, answer, ofNode, hi]
  rfl

theorem shown_bank (b : UInt32) : shown fs layout X (.bank i b)
    = (result (readSheet fs (entryFile layout id "mem_banks" b)
      (·.memoryBank))).mapError FileFault.toFault := by
  simp only [shown, answer, ofNode, hi]
  rfl

theorem shown_cache (k : UInt32) : shown fs layout X (.cache i k)
    = (result (readSheet fs (entryFile layout id "caches" k)
      (·.cache))).mapError FileFault.toFault := by
  simp only [shown, answer, ofNode, hi]
  rfl

theorem shown_link (k : UInt32) (peer : Bool) : shown fs layout X (.link i k peer) =
    match result (PropertySheet.read fs (entryFile layout id (linkTable peer) k)) with
    | .ok sheet => linkOfSheet X i id sheet
    | .error (.missing _) => .ok none
    | .error fault => .error fault.toFault := by
  simp only [shown, answer, hi, readLink, linkTable, result, Id.run_bind]
  generalize (PropertySheet.read fs (entryFile layout id _ k)).run.run = read
  rcases read with (_ | _ | _) | _ <;> rfl

end Shown

theorem shown_processors : shown fs layout X .processors
    = (result (ProcessorTable.read fs layout.processorTable)).mapError FileFault.toFault := rfl

theorem shown_processorCaches (table : List Processor) :
    shown fs layout X (.processorCaches i table)
      = (result (readProcessorCaches fs layout i table)).mapError FileFault.toFault := rfl

/-- The link that entry `k` of a table stands for, if it has a file and leads to an exposed node.
What it is for a malformed entry does not matter, since a survey fails that reads one. -/
def entryLink? (fs : Files Id) (layout : Layout) (X : Exposure) (i id : UInt32) (peer : Bool)
    (k : Nat) : Option Link := do
  let sheet ← (result (PropertySheet.read fs
    (entryFile layout id (linkTable peer) (.ofNat k)))).toOption
  let target ← (sheet.uint64 "node_to").toOption
  let j ← X.findIdx? (·.toNat = target.toNat)
  (sheet.link i (.ofNat j)).toOption

/-- The links that the first `count` entries of a table stand for. -/
def entryLinks (fs : Files Id) (layout : Layout) (X : Exposure) (i id : UInt32) (peer : Bool)
    (count : Nat) : List Link :=
  found peer ((List.range count).map (entryLink? fs layout X i id peer))

/-- The links that the entries before entry `k` of a table stand for, behind those of the standard
table if it is the table of peer links. -/
def linksBefore (fs : Files Id) (layout : Layout) (X : Exposure) (i id : UInt32) (standard : Nat) :
    (peer : Bool) → (k : Nat) → List Link
  | false, k => entryLinks fs layout X i id false k
  | true, k =>
    entryLinks fs layout X i id false standard ++ entryLinks fs layout X i id true k

theorem index?_toUInt32 {n : UInt64} (hn : n.toNat < UInt32.size) :
    X.index? n.toUInt32 = (X.findIdx? (·.toNat = n.toNat)).map .ofNat := by
  unfold Exposure.index? List.idxOf?
  congr 2
  funext m
  rw [Bool.eq_iff_iff, beq_iff_eq, decide_eq_true_iff, ← UInt32.toNat_inj, toNat_toUInt32 hn]

/-- What a well formed entry `k` of a table says about node `i`, number `id`: no link, if it has no
file or leads to a node that is not exposed, and else what its sheet says of the link to that node. -/
inductive EntrySays (fs : Files Id) (layout : Layout) (X : Exposure) (i id : UInt32) (peer : Bool)
    (k : Nat) : Option Link → Prop
  | noFile (h : (fs.kind (entryFile layout id (linkTable peer) (.ofNat k))).run = none) :
    EntrySays fs layout X i id peer k none
  | notExposed {sheet : PropertySheet} {target : UInt64}
    (hsheet : result (PropertySheet.read fs (entryFile layout id (linkTable peer) (.ofNat k)))
      = .ok sheet)
    (hsource : sheet.uint32 "node_from" = .ok id) (htarget : sheet.uint64 "node_to" = .ok target)
    (h : ∀ n ∈ X, n.toNat ≠ target.toNat) : EntrySays fs layout X i id peer k none
  | leads {sheet : PropertySheet} {target : UInt64} {j : UInt32} {l : Link}
    (hsheet : result (PropertySheet.read fs (entryFile layout id (linkTable peer) (.ofNat k)))
      = .ok sheet)
    (hsource : sheet.uint32 "node_from" = .ok id) (htarget : sheet.uint64 "node_to" = .ok target)
    (hsize : target.toNat < UInt32.size) (hj : X.index? target.toUInt32 = some j)
    (hl : sheet.link i j = .ok l) : EntrySays fs layout X i id peer k (some l)

theorem kind_of_missing_sheet {path p : String}
    (h : result (PropertySheet.read fs path) = .error (.missing p)) : (fs.kind path).run = none := by
  rw [PropertySheet.read, result_bind] at h
  rcases hcontent : result (readContent fs path) with e | text <;> rw [hcontent] at h <;> cases h
  exact kind_of_missing_content hcontent

theorem result_read_of_none {path : String} (h : (fs.kind path).run = none) :
    result (PropertySheet.read fs path) = .error (.missing path) := by
  rw [PropertySheet.read, result_bind, result_readContent, h]
  rfl

/-- An entry that is answered is well formed, and the answer is what it says. -/
theorem Canonical.says_of_shown (hfs : Canonical fs layout) (hid : Listed fs layout id)
    (hi : X.number i = .ok id) {k : Nat} {peer : Bool} {a : Option Link}
    (h : shown fs layout X (.link i (.ofNat k) peer) = .ok a) :
    EntrySays fs layout X i id peer k a := by
  rw [shown_link hi] at h
  rcases hsheet : result (PropertySheet.read fs (entryFile layout id (linkTable peer) (.ofNat k)))
    with (_ | _ | _) | sheet <;> rw [hsheet] at h
  · cases h
  · cases h
  · cases h
    exact .noFile (kind_of_missing_sheet hsheet)
  · obtain ⟨source, hsource, hrest⟩ := bind_eq_ok.1 h
    split_ifs at hrest with hne
    obtain rfl := not_not.1 hne
    obtain ⟨_, ht, hlink⟩ := bind_eq_ok.1 hrest
    obtain ⟨target, htarget, rfl⟩ := exists_uint64 (mapError_eq_ok.1 ht)
    have hsource := mapError_eq_ok.1 hsource
    have hsize := hfs.linkTarget source hid peer _ sheet target hsheet htarget
    rcases hj : X.index? target.toUInt32 with _ | j <;> simp only [hj] at hlink
    · cases hlink
      rw [index?_toUInt32 hsize, Option.map_eq_none_iff, List.findIdx?_eq_none_iff] at hj
      exact .notExposed hsheet hsource htarget fun n hn => of_decide_eq_false (hj n hn)
    · rcases hl : sheet.link i j with f | l <;> rw [hl] at hlink <;> cases hlink
      exact .leads hsheet hsource htarget hsize hj hl

theorem EntrySays.eq_entryLink? {k : Nat} {peer : Bool} {a : Option Link}
    (h : EntrySays fs layout X i id peer k a) : entryLink? fs layout X i id peer k = a := by
  unfold entryLink?
  cases h with
  | noFile h =>
    rw [result_read_of_none h]
    rfl
  | notExposed hsheet _ htarget h =>
    have hnone := List.findIdx?_eq_none_iff.2 fun n hn => decide_eq_false (h n hn)
    rw [hsheet]
    change (PropertySheet.uint64 _ "node_to").toOption.bind _ = _
    rw [htarget]
    change (X.findIdx? _).bind _ = _
    rw [hnone]
    rfl
  | leads hsheet _ htarget hsize hj hl =>
    rw [index?_toUInt32 hsize] at hj
    obtain ⟨m, hm, rfl⟩ := Option.map_eq_some_iff.1 hj
    rw [hsheet]
    change (PropertySheet.uint64 _ "node_to").toOption.bind _ = _
    rw [htarget]
    change (X.findIdx? _).bind _ = _
    rw [hm]
    exact congrArg Except.toOption hl

theorem exists_sheet (hi : X.number i = .ok id) {r : Report}
    (h : shown fs layout X (.report i) = .ok r) : ∃ sheet standard,
      result (PropertySheet.read fs (nodeFile layout id "properties")) = .ok sheet
        ∧ sheet.uint32 "io_links_count" = .ok standard
        ∧ sheet.uint32 "p2p_links_count" = .ok r.peerLinks
        ∧ r.profile.links
          = .ofNat (min (standard.toNat + r.peerLinks.toNat) (UInt32.size - 1)) := by
  rw [shown_report hi, mapError_eq_ok, readReport, result_bind] at h
  obtain ⟨sheet, hsheet, h⟩ := bind_eq_ok.1 h
  obtain ⟨gpuId, -, h⟩ := bind_eq_ok.1 ((result_bind _ _).symm.trans h)
  obtain ⟨hpeers, standard, hstandard, hlinks⟩ := PropertySheet.counts_report r h
  exact ⟨sheet, standard, hsheet, hstandard, hpeers, hlinks⟩

/-- The answers that a node is made from are what the entries of its two tables say, as far as they
are read. -/
structure OfTables (fs : Files Id) (layout : Layout) (X : Exposure) (i id : UInt32)
    (standard peers : Nat) (r : NodeReading) : Prop where
  standard_count : r.profile.links.toNat - r.report.peerLinks.toNat = standard
  peers_count : r.report.peerLinks.toNat = peers
  standard_says : ∀ k a, r.standard[k]? = some a → EntrySays fs layout X i id false k a
  peers_says : ∀ k a, r.peers[k]? = some a → EntrySays fs layout X i id true k a

section OfTables

variable {r : NodeReading} {nodes : UInt32} {s s' : Progress} {es : List Exchange}
  {standard peers : UInt32}

theorem Canonical.ofTables (hfs : Canonical fs layout) (hid : Listed fs layout id)
    (hi : X.number i = .ok id) (htold : r.Told (shown fs layout X) i) (hal : r.Along nodes i s es s')
    {sheet : PropertySheet}
    (hsheet : result (PropertySheet.read fs (nodeFile layout id "properties")) = .ok sheet)
    (hstandard : sheet.uint32 "io_links_count" = .ok standard)
    (hpeers : sheet.uint32 "p2p_links_count" = .ok peers)
    (hsum : standard.toNat + peers.toNat < UInt32.size) :
    OfTables fs layout X i id standard.toNat peers.toNat r := by
  obtain ⟨_, _, hsheet', hstandard', hpeers', hlinks⟩ := exists_sheet hi htold.report
  cases hsheet.symm.trans hsheet'
  cases hstandard.symm.trans hstandard'
  obtain rfl : peers = r.report.peerLinks := Except.ok.inj (hpeers.symm.trans hpeers')
  have hcount : r.profile.links.toNat = standard.toNat + r.report.peerLinks.toNat := by
    rw [hal.profile_counts.2.2, hlinks, Nat.min_eq_left (Nat.le_sub_one_of_lt hsum)]
    exact UInt32.toNat_ofNat_of_lt' hsum
  exact ⟨by rw [hcount, Nat.add_sub_cancel], rfl,
    fun k a hk => hfs.says_of_shown hid hi (htold.standard k a hk),
    fun k a hk => hfs.says_of_shown hid hi (htold.peers k a hk)⟩

/-- Answers that entries give are those of the table, up to where they end. -/
theorem eq_take_of_says {peer : Bool} {count : Nat} {answers : List (Option Link)}
    (hle : answers.length ≤ count)
    (h : ∀ k a, answers[k]? = some a → EntrySays fs layout X i id peer k a) :
    answers = ((List.range count).map (entryLink? fs layout X i id peer)).take answers.length := by
  refine List.prefix_iff_eq_take.1 (List.prefix_iff_getElem?.2 fun k hk => ?_)
  rw [List.getElem?_map, List.getElem?_range (Nat.lt_of_lt_of_le hk hle), Option.map_some,
    (h k _ (List.getElem?_eq_getElem hk)).eq_entryLink?]

theorem length_entries {peer : Bool} {count : Nat} :
    ((List.range count).map (entryLink? fs layout X i id peer)).length = count := by
  rw [List.length_map, List.length_range]

theorem entryLinks_eq_take {peer : Bool} {count k : Nat} (hk : k ≤ count) :
    entryLinks fs layout X i id peer k
      = found peer (((List.range count).map (entryLink? fs layout X i id peer)).take k) := by
  rw [← List.map_take, List.take_range, Nat.min_eq_left hk, entryLinks]

variable (h : OfTables fs layout X i id standard.toNat peers.toNat r)
  (hal : r.Along nodes i s es s')

include h hal

theorem OfTables.standard_eq_take : r.standard
    = ((List.range standard.toNat).map (entryLink? fs layout X i id false)).take
      r.standard.length :=
  eq_take_of_says (h.standard_count ▸ hal.standard_filled.length_le) h.standard_says

theorem OfTables.peers_eq_take : r.peers
    = ((List.range peers.toNat).map (entryLink? fs layout X i id true)).take r.peers.length :=
  eq_take_of_says (h.peers_count ▸ hal.peers_filled.length_le) h.peers_says

theorem OfTables.links_eq : r.links = (entryLinks fs layout X i id false standard.toNat
    ++ entryLinks fs layout X i id true peers.toNat).take (nodes.toNat - 1) :=
  hal.links_eq_take (h.standard_count.trans length_entries.symm)
    (h.peers_count.trans length_entries.symm) (h.standard_eq_take hal) (h.peers_eq_take hal)

/-- An entry before which there is room is read, so it is well formed. -/
theorem OfTables.says {peer : Bool} {k : Nat}
    (hk : k < if peer then peers.toNat else standard.toNat)
    (hroom : (linksBefore fs layout X i id standard.toNat peer k).length < nodes.toNat - 1) :
    EntrySays fs layout X i id peer k (entryLink? fs layout X i id peer k) := by
  have hstandard : Filled (nodes.toNat - 1) 0
      ((List.range standard.toNat).map (entryLink? fs layout X i id false)).length r.standard := by
    rw [length_entries, ← h.standard_count]
    exact hal.standard_filled
  have hpeers : Filled (nodes.toNat - 1) (found false r.standard).length
      ((List.range peers.toNat).map (entryLink? fs layout X i id true)).length r.peers := by
    rw [length_entries, ← h.peers_count]
    exact hal.peers_filled
  cases peer with
  | false =>
    have hk : k < standard.toNat := hk
    rw [linksBefore, entryLinks_eq_take (Nat.le_of_lt hk)] at hroom
    have hlt := hstandard.lt_length (h.standard_eq_take hal) false (by rwa [length_entries])
      (by rwa [Nat.zero_add])
    have hsays := h.standard_says k _ (List.getElem?_eq_getElem hlt)
    rwa [← hsays.eq_entryLink?] at hsays
  | true =>
    have hk : k < peers.toNat := hk
    -- of the standard table no more was found than it holds
    have hheld : (found false r.standard).length
        ≤ (entryLinks fs layout X i id false standard.toNat).length := by
      rw [hstandard.found_eq_take (h.standard_eq_take hal) (Nat.zero_le _), entryLinks]
      exact List.length_take_le' _ _
    rw [linksBefore, List.length_append, entryLinks_eq_take (Nat.le_of_lt hk)] at hroom
    have hlt := hpeers.lt_length (h.peers_eq_take hal) true (by rwa [length_entries])
      (Nat.lt_of_le_of_lt (Nat.add_le_add_right hheld _) hroom)
    have hsays := h.peers_says k _ (List.getElem?_eq_getElem hlt)
    rwa [← hsays.eq_entryLink?] at hsays

end OfTables

/-- The link `l` of node `i`, number `id`, is what entry `k` of a table says of an exposed node. -/
structure OfEntry (fs : Files Id) (layout : Layout) (X : Exposure) (i id : UInt32) (peer : Bool)
    (k : Nat) (l : Link) : Prop where
  direct : l.kind = .direct
  table : l.peer = peer
  source : l.source = i
  target : ∃ sheet target, result (PropertySheet.read fs
      (entryFile layout id (linkTable peer) (.ofNat k))) = .ok sheet
    ∧ sheet.uint64 "node_to" = .ok target ∧ target.toNat < UInt32.size
    ∧ X.index? target.toUInt32 = some l.target

theorem of_mem_entryLinks {peer : Bool} {count : Nat} {l : Link}
    (h : l ∈ entryLinks fs layout X i id peer count) :
    ∃ k < count, OfEntry fs layout X i id peer k l := by
  obtain ⟨a, ha, hl⟩ := List.mem_filterMap.1 h
  obtain ⟨k, hk, rfl⟩ := List.mem_map.1 ha
  obtain ⟨l', hl', rfl⟩ := Option.map_eq_some_iff.1 hl
  obtain ⟨sheet, hsheet, hl'⟩ := Option.bind_eq_some_iff.1 hl'
  obtain ⟨target, htarget, hl'⟩ := Option.bind_eq_some_iff.1 hl'
  obtain ⟨j, hj, hl'⟩ := Option.bind_eq_some_iff.1 hl'
  obtain ⟨hsource, htarget'⟩ := PropertySheet.ends_link l' (toOption_eq_some hl')
  have hlt : target.toNat < UInt32.size := by
    obtain ⟨hlt, heq, -⟩ := List.findIdx?_eq_some_iff_getElem.1 hj
    exact of_decide_eq_true heq ▸ UInt32.toNat_lt_size X[j]
  refine ⟨k, List.mem_range.1 hk, rfl, rfl, hsource, sheet, target, toOption_eq_some hsheet,
    toOption_eq_some htarget, hlt, ?_⟩
  rw [index?_toUInt32 hlt, hj]
  exact congrArg some htarget'.symm

/-- The nodes of the snapshot are the exposed nodes of the tree, in order and without gaps. -/
structure Renumbered (fs : Files Id) (layout : Layout) (X : Exposure) (S : Snapshot) : Prop where
  exposed : ∀ id, id ∈ X ↔ Listed fs layout id ∧ Accessible fs layout id
  increasing : X.Pairwise (· < ·)
  inverse : ∀ i id, X.number i = .ok id ↔ X.index? id = some i
  indexed : ∀ id ∈ X, ∃ i, X.index? id = some i
  /-- Only a tree with all the 2³² nodes there can be has more than the count can say. -/
  count : S.nodes.length = X.length % UInt32.size
  links : ∀ (k : Nat) (n : Node), S.nodes[k]? = some n → ∃ id sheet standard peers,
    X[k]? = some id ∧ result (PropertySheet.read fs (nodeFile layout id "properties")) = .ok sheet
    ∧ sheet.uint32 "io_links_count" = .ok standard ∧ sheet.uint32 "p2p_links_count" = .ok peers
    ∧ (standard.toNat + peers.toNat < UInt32.size →
      n.reported = (entryLinks fs layout X (.ofNat k) id false standard.toNat
          ++ entryLinks fs layout X (.ofNat k) id true peers.toNat).take (S.nodes.length - 1)
        ∧ (∀ l ∈ n.reported, ∃ peer entry, OfEntry fs layout X (.ofNat k) id peer entry l)
        ∧ ∀ peer entry, (entry < if peer then peers.toNat else standard.toNat) →
          (linksBefore fs layout X (.ofNat k) id standard.toNat peer entry).length
            < S.nodes.length - 1 →
          EntrySays fs layout X (.ofNat k) id peer entry
            (entryLink? fs layout X (.ofNat k) id peer entry))

theorem count_of_shown (hX : result (readExposure fs layout) = .ok X) {platform : Platform}
    (h : shown fs layout X .platform = .ok platform) : platform.nodes = .ofNat X.length := by
  rw [shown_platform hX, mapError_eq_ok] at h
  obtain ⟨sheet, -, h⟩ := bind_eq_ok.1 h
  exact PropertySheet.nodes_platform platform h

theorem exists_number {r : Report} (h : shown fs layout X (.report i) = .ok r) :
    ∃ id, X.number i = .ok id := by
  rcases hi : X.number i with f | id
  · simp only [shown, answer, ofNode, hi] at h
    cases h
  · exact ⟨id, rfl⟩

theorem Canonical.renumbered (hfs : Canonical fs layout)
    (hX : result (readExposure fs layout) = .ok X) {S : Snapshot} {tally : Tally}
    (h : (Survey.attempt 1).eval (shown fs layout X) = .ok (some (S, tally))) :
    Renumbered fs layout X S := by
  have hincreasing := hfs.pairwise_exposure hX
  obtain ⟨r, _, _, -, -, hplatform, hS, -⟩ := Survey.exists_told h
  have hlength := Survey.length_nodes h
  have hcount : S.nodes.length = X.length % UInt32.size := by
    rw [hlength, hS, count_of_shown hX hplatform, UInt32.toNat_ofNat']
  refine ⟨fun id => hfs.mem_exposure_iff hX, hincreasing,
    fun i id => Exposure.number_iff_index? hincreasing, fun id hid => ?_, hcount, fun k n hn => ?_⟩
  · obtain ⟨k, hk⟩ := List.getElem?_of_mem hid
    exact ⟨.ofNat k, by rw [Exposure.index?, (Exposure.idxOf?_iff hincreasing).2 hk]; rfl⟩
  · obtain ⟨rn, htold, hext, _, _, _, hal⟩ := Survey.exists_told_node h hn
    obtain ⟨id, hid⟩ := exists_number htold.report
    obtain ⟨sheet, standard, hsheet, hstandard, hpeers, -⟩ := exists_sheet hid htold.report
    have hk : (UInt32.ofNat k).toNat = k := by
      have hlt := (List.getElem?_eq_some_iff.1 hn).1
      rw [hlength] at hlt
      exact UInt32.toNat_ofNat_of_lt' (Nat.lt_trans hlt (UInt32.toNat_lt_size _))
    have hget : X[k]? = some id := hk ▸ Exposure.number_eq_ok.1 hid
    have hlisted := ((hfs.mem_exposure_iff hX).1 (List.mem_of_getElem? hget)).1
    refine ⟨id, sheet, standard, _, hget, hsheet, hstandard, hpeers, fun hsum => ?_⟩
    have hreported : n.reported = rn.links := hext.filter_direct.trans rn.reported_node
    have htables := hfs.ofTables hlisted hid htold hal hsheet hstandard hpeers hsum
    have hlinks := htables.links_eq hal
    rw [← hlength] at hlinks
    refine ⟨hreported.trans hlinks, fun l hl => ?_, fun peer entry hentry hroom =>
      htables.says hal hentry (hlength ▸ hroom)⟩
    rw [hreported, hlinks] at hl
    rcases List.mem_append.1 (List.mem_of_mem_take hl) with hl | hl
    · obtain ⟨entry, -, hentry⟩ := of_mem_entryLinks hl
      exact ⟨false, entry, hentry⟩
    · obtain ⟨entry, -, hentry⟩ := of_mem_entryLinks hl
      exact ⟨true, entry, hentry⟩

end Sysfs

end ComputeTopology
