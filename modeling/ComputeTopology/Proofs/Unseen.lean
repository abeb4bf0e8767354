import ComputeTopology.Proofs.Agreement
import ComputeTopology.Proofs.Canonical
import ComputeTopology.Proofs.Renumbered

/-!
# What is not exposed is not seen

Of a node that is not exposed only its GPU id and the number of its render device are looked at. So
two file systems that differ elsewhere below such nodes (`Sysfs.AgreeButFor`) have the same exposure
and give the same answers, and a survey publishes the same snapshot of both
(`Sysfs.Canonical.take_renumbered`).
-/

namespace ComputeTopology.Sysfs

variable {fs fs' : Files Id} {layout : Layout} {wait : UInt64 → Id Unit} {e X : Exposure}
  {i id : UInt32}

/-- The driver lists the node, but it is not exposed. -/
def Excluded (fs : Files Id) (layout : Layout) (X : Exposure) (id : UInt32) : Prop :=
  Listed fs layout id ∧ id ∉ X

/-- Where there was a property sheet of the node there still is one, with the same render device. -/
def SameRenderDevice (fs fs' : Files Id) (layout : Layout) (id : UInt32) : Prop :=
  ∀ sheet, result (PropertySheet.read fs (nodeFile layout id "properties")) = .ok sheet →
    ∃ sheet', result (PropertySheet.read fs' (nodeFile layout id "properties")) = .ok sheet'
      ∧ sheet'.uint32 "drm_render_minor" = sheet.uint32 "drm_render_minor"

/-- Below the nodes that are not exposed, the two file systems agree only on the GPU ids and the
render devices. -/
structure AgreeButFor (fs fs' : Files Id) (layout : Layout) (X : Exposure) : Prop extends
    AgreeOnProcessors fs fs' layout where
  generation : AgreeAt fs fs' (joinPath layout.topology "generation_id")
  platform : AgreeAt fs fs' (joinPath layout.topology "system_properties")
  nodes : AgreeAt fs fs' layout.nodes
  directories : ∀ name, Plain name →
    fs'.kind (joinPath layout.nodes name) = fs.kind (joinPath layout.nodes name)
  exposed : ∀ id ∈ X, AgreeOnNode fs fs' layout id
  gpuId : ∀ id, Excluded fs layout X id → AgreeAt fs fs' (nodeFile layout id "gpu_id")
  renderMinor : ∀ id, Excluded fs layout X id → SameRenderDevice fs fs' layout id
  opens : ∀ minor : UInt32,
    fs'.opens (renderDevice layout minor.toNat) = fs.opens (renderDevice layout minor.toNat)

theorem AgreeOnNode.sameRenderDevice (h : AgreeOnNode fs fs' layout id) :
    SameRenderDevice fs fs' layout id := fun sheet hsheet =>
  ⟨sheet, by rwa [propertySheet_congr (h.nodeFile (by decide +kernel))], rfl⟩

theorem isExposed_of_agree (hgpuId : AgreeAt fs fs' (nodeFile layout id "gpu_id"))
    (hrender : SameRenderDevice fs fs' layout id)
    (hopens : ∀ minor : UInt32,
      fs'.opens (renderDevice layout minor.toNat) = fs.opens (renderDevice layout minor.toNat))
    {b : Bool} (h : result (isExposed fs layout id) = .ok b) :
    result (isExposed fs' layout id) = .ok b := by
  have hread := h
  rw [isExposed, result_bind, bind_eq_ok] at hread
  obtain ⟨gpuId, hread, -⟩ := hread
  have hread' : result (readGpuId fs' layout id) = .ok gpuId := by rwa [readGpuId_congr hgpuId]
  by_cases hzero : gpuId = 0
  · subst hzero
    rw [result_isExposed_of_eq hread] at h
    rwa [result_isExposed_of_eq hread']
  · rw [result_isExposed_of_ne hread hzero] at h
    rw [result_isExposed_of_ne hread' hzero]
    obtain ⟨sheet, hsheet, h⟩ := bind_eq_ok.1 h
    obtain ⟨sheet', hsheet', hminor⟩ := hrender sheet hsheet
    rw [hsheet', ok_bind, hminor]
    simp only [hopens]
    exact h

theorem ofNode_congr {α : Type} {read read' : UInt32 → ExceptT FileFault Id α}
    (h : ∀ id, X.number i = .ok id → read' id = read id) :
    ofNode X i read' = ofNode X i read := by
  unfold ofNode
  rcases hi : X.number i with f | id
  · rfl
  · simp only [h id hi]

section Agree

variable (hfs : Canonical fs layout) (hX : result (readExposure fs layout) = .ok X)
  (hagree : AgreeButFor fs fs' layout X)

include hfs hX hagree

theorem Canonical.readExposure_of_agree : result (readExposure fs' layout) = .ok X := by
  obtain ⟨hdir, l, g, hl, rfl, hg⟩ := readExposure_eq_ok.1 hX
  refine readExposure_eq_ok.2 ⟨?_, l, g, ?_, rfl, fun id hid => ?_⟩
  · rwa [isDirectory_congr hagree.nodes.kind]
  · rwa [numberedDirectories_congr (by decide +kernel) hagree.nodes.list hagree.directories]
  · -- an exposed node agrees as a whole, an excluded one in what it is excluded by
    by_cases hmem : id ∈ (l.map (·.1)).filter g
    · have hnode := hagree.exposed id hmem
      exact isExposed_of_agree (hnode.nodeFile (by decide +kernel)) hnode.sameRenderDevice
        hagree.opens (hg id hid)
    · have hexcluded : Excluded fs layout _ id := ⟨(hfs.mem_numbers_iff hl).1 hid, hmem⟩
      exact isExposed_of_agree (hagree.gpuId id hexcluded) (hagree.renderMinor id hexcluded)
        hagree.opens (hg id hid)

theorem Canonical.shown_of_agree (p : Probe) : shown fs' layout X p = shown fs layout X p := by
  have hnode : ∀ {i id}, X.number i = .ok id → AgreeOnNode fs fs' layout id := fun hi =>
    hagree.exposed _ (List.mem_of_getElem? (Exposure.number_eq_ok.1 hi))
  cases p with
  | generation =>
    simp only [shown, answer, ofTree, readUInt64_congr hagree.generation]
  | platform =>
    rw [shown_platform hX, shown_platform (hfs.readExposure_of_agree hX hagree),
      propertySheet_congr hagree.platform]
  | report i =>
    simp only [shown, answer, ofNode_congr fun _ hi => readReport_congr (hnode hi)]
  | bank i b =>
    have hbank : Plain "mem_banks" := by decide +kernel
    simp only [shown, answer, ofNode_congr fun _ hi => readSheet_congr ((hnode hi).entryFile hbank b)]
  | cache i k =>
    have hcache : Plain "caches" := by decide +kernel
    simp only [shown, answer,
      ofNode_congr fun _ hi => readSheet_congr ((hnode hi).entryFile hcache k)]
  | link i k peer =>
    rcases hi : X.number i with f | id
    · simp only [shown, answer, hi]
    · have htable : Plain (linkTable peer) := by cases peer <;> decide +kernel
      rw [shown_link hi, shown_link hi, propertySheet_congr ((hnode hi).entryFile htable k)]
  | processors =>
    rw [shown_processors, shown_processors, processorTable_congr hagree.processorTable]
  | processorCaches i table =>
    rw [shown_processorCaches, shown_processorCaches,
      readProcessorCaches_congr hagree.memoryNodes hagree.processors]

end Agree

/-- A survey of files that do not change publishes the exposed nodes, renumbered, and does not see
what is below the others. -/
theorem Canonical.take_renumbered {p p' : Publisher} (hfs : Canonical fs layout)
    (h : p.take (machine fs layout wait) e = ((.ok (), p'), X)) :
    ∃ S tally, p' = p.publish S tally ∧ Renumbered fs layout X S
      ∧ ∀ (fs' : Files Id) (wait' : UInt64 → Id Unit) (e' : Exposure),
        AgreeButFor fs fs' layout X →
          p.take (machine fs' layout wait') e' = ((.ok (), p.publish S tally), X) := by
  obtain ⟨hX, S, tally, heval, rfl⟩ := exists_shown h
  refine ⟨S, tally, rfl, hfs.renumbered hX heval, fun fs' wait' e' hagree => ?_⟩
  refine take_of_eval (hfs.readExposure_of_agree hX hagree) ?_ p e'
  rwa [funext (hfs.shown_of_agree hX hagree)]

/-- Two hosts with a GPU between them. The second host leaves its caches to its processors. -/
def gapped : FileTree :=
  .directory [
    ("kfd", .directory [
      ("generation_id", .file "1"),
      ("system_properties", .file "platform_oem 2"),
      ("nodes", .directory [
        ("0", .directory [
          ("gpu_id", .file "0"),
          ("properties", .file "cpu_cores_count 4\ncaches_count 1\nio_links_count 2"),
          ("caches", .directory [("0", .directory [("properties", .file "level 3")])]),
          ("io_links", .directory [
            ("0", .directory [("properties", .file "type 2\nnode_from 0\nnode_to 1\nweight 20")]),
            ("1", .directory [("properties", .file "type 2\nnode_from 0\nnode_to 2\nweight 20")])])]),
        ("1", .directory [
          ("gpu_id", .file "7"),
          ("properties", .file "simd_count 64\ndrm_render_minor 128")]),
        ("2", .directory [
          ("gpu_id", .file "0"),
          ("properties", .file "cpu_cores_count 4\np2p_links_count 1"),
          ("p2p_links", .directory [
            ("0", .directory [("properties", .file "type 2\nnode_from 2\nnode_to 0\nweight 10")])])])])]),
    ("cpuinfo", .file "processor : 0\napicid : 0"),
    ("node", .directory [
      ("node2", .directory [
        ("cpu0", .directory [
          ("cache", .directory [
            ("index0", .directory [
              ("shared_cpu_list", .file "0"),
              ("type", .file "Data"),
              ("size", .file "32K"),
              ("shared_cpu_map", .file "1"),
              ("level", .file "1"),
              ("coherency_line_size", .file "64"),
              ("physical_line_partition", .file "1"),
              ("ways_of_associativity", .file "8")])])])])])]

def gappedLayout : Layout where
  topology := "kfd"
  memoryNodes := "node"
  processors := "cpu"
  processorTable := "cpuinfo"
  renderDevices := "dri"

/-- The files of the tree; the render devices can be opened or not. -/
def gappedFiles (opens : Bool) : Files Id :=
  { gapped.files with opens := fun _ => opens }

def gappedExposure (opens : Bool) : Exposure :=
  [0, 1, 2].filter fun id => id ≠ 1 || opens

theorem canonical_gapped (opens : Bool) : Canonical (gappedFiles opens) gappedLayout :=
  canonical_of_texts ["0", "1", "2"] (toOption_eq_some (by decide +kernel))
    (by decide +kernel) (by decide +kernel) (by decide +kernel)

theorem numberedDirectories_gapped (opens : Bool) :
    result (numberedDirectories (gappedFiles opens) gappedLayout.nodes "")
      = .ok [(0, "kfd/nodes/0"), (1, "kfd/nodes/1"), (2, "kfd/nodes/2")] :=
  result_numberedDirectories [.ok "0", .ok "1", .ok "2"]
    (toOption_eq_some (by cases opens <;> decide +kernel))
    (toOption_eq_some (by cases opens <;> decide +kernel)) (by decide +kernel)

theorem readExposure_gapped (opens : Bool) :
    result (readExposure (gappedFiles opens) gappedLayout) = .ok (gappedExposure opens) := by
  have hall : [0, 1, 2].all (fun id =>
      (result (isExposed (gappedFiles opens) gappedLayout id)).toOption = some (id ≠ 1 || opens))
        = true := by
    cases opens <;> decide +kernel
  refine readExposure_eq_ok.2 ⟨by cases opens <;> decide +kernel, _, fun id => id ≠ 1 || opens,
    numberedDirectories_gapped opens, rfl, fun id hid => toOption_eq_some ?_⟩
  exact of_decide_eq_true (List.all_eq_true.1 hall id hid)

theorem eq_one_of_excluded
    (h : Excluded (gappedFiles false) gappedLayout (gappedExposure false) id) : id = 1 := by
  have hid := ((canonical_gapped false).mem_numbers_iff (numberedDirectories_gapped false)).2 h.1
  have hnot := h.2
  revert hid hnot
  simp only [gappedExposure, List.map_cons, List.map_nil, List.mem_cons, List.mem_filter]
  rintro (rfl | rfl | rfl | hnil) hnot
  · exact absurd (by decide) hnot
  · rfl
  · exact absurd (by decide) hnot
  · cases hnil

def gappedPlatform (opens : Bool) : Platform :=
  { nodes := .ofNat (gappedExposure opens).length, oem := 2, id := 0, revision := 0 }

theorem shown_platform_gapped (opens : Bool) :
    shown (gappedFiles opens) gappedLayout (gappedExposure opens) .platform
      = .ok (gappedPlatform opens) := by
  rw [shown_platform (readExposure_gapped opens), mapError_eq_ok]
  exact toOption_eq_some (by cases opens <;> decide +kernel)

/-- The same files, except that the GPU's sheet has other entries. -/
def alteredFiles : Files Id :=
  { gappedFiles false with
    readText path :=
      if path = "kfd/nodes/1/properties" then .ok "drm_render_minor 128\nio_links_count 9"
      else gapped.readText path }

theorem agreeAt_altered {path : String} (h : path ≠ "kfd/nodes/1/properties") :
    AgreeAt (gappedFiles false) alteredFiles path :=
  ⟨rfl, if_neg h, rfl⟩

theorem prefix_of_below {root path : String} (h : Below root path) :
    root.toList <+: path.toList := by
  induction h with
  | root => exact List.prefix_rfl
  | @step path name _ _ ih =>
    refine ih.trans ?_
    unfold joinPath
    split_ifs <;> simp

theorem agreeBelow_altered {root : String}
    (h : ¬ root.toList <+: "kfd/nodes/1/properties".toList) :
    AgreeBelow (gappedFiles false) alteredFiles root := fun _ hpath =>
  agreeAt_altered fun heq => h (heq ▸ prefix_of_below hpath)

theorem agreeButFor_altered :
    AgreeButFor (gappedFiles false) alteredFiles gappedLayout (gappedExposure false) where
  memoryNodes := agreeBelow_altered (by decide +kernel)
  processors := agreeBelow_altered (by decide +kernel)
  processorTable := agreeAt_altered (by decide +kernel)
  generation := agreeAt_altered (by decide +kernel)
  platform := agreeAt_altered (by decide +kernel)
  nodes := agreeAt_altered (by decide +kernel)
  directories _ _ := rfl
  exposed id hid := by
    have hall : (gappedExposure false).all (fun id =>
        ¬ (joinPath gappedLayout.nodes (Text.decimal id.toNat)).toList
          <+: "kfd/nodes/1/properties".toList) = true := by decide +kernel
    exact agreeBelow_altered (of_decide_eq_true (List.all_eq_true.1 hall id hid))
  gpuId id hid := by
    obtain rfl := eq_one_of_excluded hid
    exact agreeAt_altered (by decide +kernel)
  renderMinor id hid := by
    obtain rfl := eq_one_of_excluded hid
    intro sheet hsheet
    have hold : (result (PropertySheet.read (gappedFiles false)
        (nodeFile gappedLayout 1 "properties"))).toOption.bind
          (fun s => (s.uint32 "drm_render_minor").toOption) = some 128 := by decide +kernel
    have hnew : (result (PropertySheet.read alteredFiles
        (nodeFile gappedLayout 1 "properties"))).toOption.bind
          (fun s => (s.uint32 "drm_render_minor").toOption) = some 128 := by decide +kernel
    rw [hsheet] at hold
    obtain ⟨sheet', hsheet', hminor⟩ := Option.bind_eq_some_iff.1 hnew
    exact ⟨sheet', toOption_eq_some hsheet',
      (toOption_eq_some hminor).trans (toOption_eq_some hold).symm⟩
  opens _ := rfl

/-- The answers to be had, with the platform for one that is there already. -/
def gappedAnswer (opens : Bool) : (p : Probe) → Except Fault p.Answer
  | .platform => .ok (gappedPlatform opens)
  | p => shown (gappedFiles opens) gappedLayout (gappedExposure opens) p

theorem shown_gapped (opens : Bool) : shown (gappedFiles opens) gappedLayout (gappedExposure opens)
    = gappedAnswer opens := by
  funext p
  cases p with
  | platform => exact shown_platform_gapped opens
  | _ => rfl

theorem Canonical.take_renumbered_gapped :
    Canonical (gappedFiles false) gappedLayout
      ∧ AgreeButFor (gappedFiles false) alteredFiles gappedLayout [0, 2]
      ∧ ∃ S tally, Publisher.take (machine (gappedFiles false) gappedLayout fun _ => ()) {} []
          = ((.ok (), Publisher.publish {} S tally), [0, 2])
        ∧ (S.nodes.map fun n => n.reported.map fun l => (l.source, l.target, l.peer))
          = [[(0, 1, false)], [(1, 0, true)]]
        ∧ Renumbered (gappedFiles false) gappedLayout [0, 2] S
        ∧ Publisher.take (machine alteredFiles gappedLayout fun _ => ()) {} [1]
          = ((.ok (), Publisher.publish {} S tally), [0, 2]) := by
  have heval : ((Survey.attempt 1).eval (gappedAnswer false)).toOption.join.map (fun r =>
      r.1.nodes.map fun n => n.reported.map fun l => (l.source, l.target, l.peer))
        = some [[(0, 1, false)], [(1, 0, true)]] := by decide +kernel
  obtain ⟨⟨S, tally⟩, hjoin, hlinks⟩ := Option.map_eq_some_iff.1 heval
  have hok := toOption_eq_some (Option.join_eq_some_iff.1 hjoin)
  rw [← shown_gapped] at hok
  have htake : Publisher.take (machine (gappedFiles false) gappedLayout fun _ => ()) {} []
      = ((.ok (), Publisher.publish {} S tally), [0, 2]) :=
    take_of_eval (readExposure_gapped false) hok {} []
  obtain ⟨S', tally', hpublish, hrenumbered, hframe⟩ :=
    Canonical.take_renumbered (canonical_gapped false) htake
  cases hpublish
  exact ⟨canonical_gapped false, agreeButFor_altered, S, tally, htake, hlinks, hrenumbered,
    hframe alteredFiles _ [1] agreeButFor_altered⟩

end ComputeTopology.Sysfs
