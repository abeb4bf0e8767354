import ComputeTopology.Capture
import ComputeTopology.Proofs.Restored

/-!
# Documents of captures and snapshots

A capture and a snapshot come back from the documents that they are written as. The document of a
capture may be cut down as well: any fields of its records can be left out, at any depth, but for
those of an engine's version, of which all are needed (`Omission.Proper`). What is read then is
the capture with the defaults in place of these fields (`Capture.without`, `documents_restored`).
-/

namespace ComputeTopology

namespace Omission

variable {D : Omission}

/-- Only fields of records are left out, and none inside an engine's version. -/
structure Proper (D : Omission) : Prop where
  /-- The tag of a numbered choice is no field. -/
  tag : ∀ path, D (path ++ [.field "Unknown"]) = false
  engine : ∀ path rest name, D (path ++ .field "engine_id" :: rest ++ [.field name]) = false

theorem proper_none : none.Proper :=
  ⟨fun _ => rfl, fun _ _ _ => rfl⟩

theorem Proper.inside (h : D.Proper) (name : String) : (D.inside name).Proper where
  tag path := h.tag (.field name :: path)
  engine path := h.engine (.field name :: path)

theorem Proper.item (h : D.Proper) (index : Nat) : (D.item index).Proper where
  tag path := h.tag (.item index :: path)
  engine path := h.engine (.item index :: path)

theorem Proper.omits_unknown (h : D.Proper) : D.omits "Unknown" = false :=
  h.tag []

theorem Proper.idle_engine (h : D.Proper) : (D.inside "engine_id").Idle :=
  h.engine []

/-- The list, or what is left of it, with what is left of its items. -/
def keepItems {α : Type} (D : Omission) (name : String) (without : Omission → α → α) (xs : List α) :
    List α :=
  D.keep name [] (xs.mapIdx fun i => without ((D.inside name).item i))

end Omission

section Without

variable (D : Omission)

def Platform.without (p : Platform) : Platform where
  nodes := D.keep "num_nodes" 0 p.nodes
  oem := D.keep "platform_oem" 0 p.oem
  id := D.keep "platform_id" 0 p.id
  revision := D.keep "platform_rev" 0 p.revision

def Profile.without (p : Profile) : Profile where
  cpuCores := D.keep "num_cpu_cores" 0 p.cpuCores
  simds := D.keep "num_f_compute_cores" 0 p.simds
  banks := D.keep "num_memory_banks" 0 p.banks
  caches := D.keep "num_caches" 0 p.caches
  links := D.keep "num_io_links" 0 p.links
  firstCoreId := D.keep "ccompute_id_lo" 0 p.firstCoreId
  firstSimdId := D.keep "fcompute_id_lo" 0 p.firstSimdId
  gpuId := D.keep "gpu_id" 0 p.gpuId
  hiveId := D.keep "hive_id" 0 p.hiveId
  uniqueId := D.keep "unique_id" 0 p.uniqueId
  vendorId := D.keep "vendor_id" 0 p.vendorId
  deviceId := D.keep "device_id" 0 p.deviceId
  locationId := D.keep "location_id" 0 p.locationId
  domain := D.keep "domain" 0 p.domain
  renderMinor := D.keep "drm_render_minor" 0 p.renderMinor
  localMemory := D.keep "local_mem_size" 0 p.localMemory
  maxWavesPerSimd := D.keep "max_waves_per_simd" 0 p.maxWavesPerSimd
  ldsSizeKb := D.keep "lds_size_in_kb" 0 p.ldsSizeKb
  gdsSizeKb := D.keep "gds_size_in_kb" 0 p.gdsSizeKb
  waveFrontSize := D.keep "wave_front_size" 0 p.waveFrontSize
  shaderBanks := D.keep "num_shader_banks" 0 p.shaderBanks
  arrays := D.keep "num_arrays" 0 p.arrays
  unitsPerArray := D.keep "num_cu_per_array" 0 p.unitsPerArray
  simdsPerUnit := D.keep "num_simd_per_cu" 0 p.simdsPerUnit
  maxScratchSlots := D.keep "max_slots_scratch_cu" 0 p.maxScratchSlots
  maxClockFcompute := D.keep "max_engine_clock_mhz_fcompute" 0 p.maxClockFcompute
  maxClockCcompute := D.keep "max_engine_clock_mhz_ccompute" 0 p.maxClockCcompute
  sdmaEngines := D.keep "num_sdma_engines" 0 p.sdmaEngines
  sdmaXgmiEngines := D.keep "num_sdma_xgmi_engines" 0 p.sdmaXgmiEngines
  sdmaQueuesPerEngine := D.keep "num_sdma_queues_per_engine" 0 p.sdmaQueuesPerEngine
  cpQueues := D.keep "num_cp_queues" 0 p.cpQueues
  gws := D.keep "num_gws" 0 p.gws
  xcc := D.keep "num_xcc" 0 p.xcc
  capability := D.keep "capability" 0 p.capability
  engine := D.keep "engine_id" {} p.engine
  shortName := D.keep "amd_name" "" p.shortName
  productName := D.keep "marketing_name" "" p.productName

def MemoryBank.without (b : MemoryBank) : MemoryBank where
  heap := D.keep "heap_type" .system b.heap
  sizeInBytes := D.keep "size_in_bytes" 0 b.sizeInBytes
  flags := D.keep "flags" 0 b.flags
  width := D.keep "width" 0 b.width
  maxClock := D.keep "mem_clk_max" 0 b.maxClock

def Cache.without (c : Cache) : Cache where
  processorIdLow := D.keep "processor_id_low" 0 c.processorIdLow
  level := D.keep "level" 0 c.level
  sizeKb := D.keep "size_kb" 0 c.sizeKb
  lineSize := D.keep "line_size" 0 c.lineSize
  linesPerTag := D.keep "lines_per_tag" 0 c.linesPerTag
  associativity := D.keep "associativity" 0 c.associativity
  latency := D.keep "latency" 0 c.latency
  kinds := D.keep "cache_type" {} c.kinds
  siblings := D.keep "sibling_map" [] c.siblings

def Link.without (l : Link) : Link where
  fabric := D.keep "link_type" .undefined l.fabric
  kind := D.keep "kind" .direct l.kind
  peer := D.keep "p2p" false l.peer
  versionMajor := D.keep "version_major" 0 l.versionMajor
  versionMinor := D.keep "version_minor" 0 l.versionMinor
  source := D.keep "node_from" 0 l.source
  target := D.keep "node_to" 0 l.target
  weight := D.keep "weight" 0 l.weight
  minLatency := D.keep "min_latency" 0 l.minLatency
  maxLatency := D.keep "max_latency" 0 l.maxLatency
  minBandwidth := D.keep "min_bandwidth" 0 l.minBandwidth
  maxBandwidth := D.keep "max_bandwidth" 0 l.maxBandwidth
  transferSize := D.keep "rec_transfer_size" 0 l.transferSize
  sdmaEngineMask := D.keep "rec_sdma_eng_id_mask" 0 l.sdmaEngineMask
  flags := D.keep "flags" 0 l.flags

def Processor.without (p : Processor) : Processor where
  number := D.keep "proc_num" 0 p.number
  apicId := D.keep "apicid" 0 p.apicId
  model := D.keep "model_name" "" p.model

def CapturedNode.without (n : CapturedNode) : CapturedNode where
  profile := D.keep "properties" {} (n.profile.without (D.inside "properties"))
  banks := D.keepItems "memory_banks" MemoryBank.without n.banks
  caches := D.keepItems "caches" Cache.without n.caches
  links := D.keepItems "io_links" (fun E => Option.map (Link.without E)) n.links
  peerLinks := D.keepItems "p2p_links" (fun E => Option.map (Link.without E)) n.peerLinks
  processorCaches := D.keepItems "cpu_caches" Cache.without n.processorCaches

/-- The capture with the default in place of every field that is left out. -/
def Capture.without (c : Capture) : Capture where
  generation := D.keep "generation" 0 c.generation
  platform := D.keep "system" {} (c.platform.without (D.inside "system"))
  nodes := D.keepItems "nodes" CapturedNode.without c.nodes
  processors := D.keepItems "cpus" Processor.without c.processors

end Without

open Codec

section Restores

variable {D : Omission}

theorem Heap.restores (h : D.Proper) : Heap.codec.Restores D id := by
  refine restores_choiceOrNumber (fun a name ha => ?_) (fun a n ha => ?_) h.omits_unknown
  · cases a <;> cases ha <;> decide
  · cases a <;> cases ha
    rfl

theorem Fabric.restores (h : D.Proper) : Fabric.codec.Restores D id := by
  refine restores_choiceOrNumber (fun a name ha => ?_) (fun a n ha => ?_) h.omits_unknown
  · cases a <;> cases ha <;> decide
  · cases a <;> cases ha
    rfl

theorem LinkKind.restores : LinkKind.codec.Restores D id :=
  restores_choice fun a => by cases a <;> decide

theorem CacheKinds.restores : CacheKinds.codec.Restores D id := fun k => by
  change (uint32.read ((uint32.write k.bits).without D)).map CacheKinds.mk = _
  rw [restores_uint32 k.bits]
  rfl

theorem Platform.restores : Platform.codec.Restores D (Platform.without D) := by
  apply Restores.record
  · iterate 4 apply List.Forall₂.cons (.of restores_uint32 fun _ => rfl)
    exact .nil
  · decide
  · exact nofun
  · exact fun _ => rfl

/-- A version is read only if all of it is there. -/
theorem GraphicsVersion.restores (h : D.Idle) : GraphicsVersion.codec.Restores D id := by
  refine .of_idle ?_ h
  apply Restores.record
  · iterate 3 apply List.Forall₂.cons (.of restores_uint8 fun _ => rfl)
    exact .nil
  · decide
  · exact fun _ _ _ => rfl
  · exact fun _ => rfl

theorem Profile.restores (h : D.Proper) : Profile.codec.Restores D (Profile.without D) := by
  apply Restores.record
  · iterate 8 apply List.Forall₂.cons (.of restores_uint32 fun _ => rfl)
    iterate 2 apply List.Forall₂.cons (.of restores_uint64 fun _ => rfl)
    iterate 2 apply List.Forall₂.cons (.of restores_uint16 fun _ => rfl)
    iterate 2 apply List.Forall₂.cons (.of restores_uint32 fun _ => rfl)
    apply List.Forall₂.cons (.of restores_int32 fun _ => rfl)
    apply List.Forall₂.cons (.of restores_uint64 fun _ => rfl)
    iterate 13 apply List.Forall₂.cons (.of restores_uint32 fun _ => rfl)
    iterate 3 apply List.Forall₂.cons (.of restores_uint8 fun _ => rfl)
    iterate 2 apply List.Forall₂.cons (.of restores_uint32 fun _ => rfl)
    apply List.Forall₂.cons (.of (GraphicsVersion.restores h.idle_engine) fun _ => rfl)
    iterate 2 apply List.Forall₂.cons (.of restores_string fun _ => rfl)
    exact .nil
  · decide
  · exact nofun
  · exact fun _ => rfl

theorem MemoryBank.restores (h : D.Proper) :
    MemoryBank.codec.Restores D (MemoryBank.without D) := by
  apply Restores.record
  · apply List.Forall₂.cons (.of (Heap.restores (h.inside _)) fun _ => rfl)
    apply List.Forall₂.cons (.of restores_uint64 fun _ => rfl)
    iterate 3 apply List.Forall₂.cons (.of restores_uint32 fun _ => rfl)
    exact .nil
  · decide
  · exact nofun
  · exact fun _ => rfl

theorem Cache.restores : Cache.codec.Restores D (Cache.without D) := by
  apply Restores.record
  · iterate 7 apply List.Forall₂.cons (.of restores_uint32 fun _ => rfl)
    apply List.Forall₂.cons (.of CacheKinds.restores fun _ => rfl)
    apply List.Forall₂.cons (.of (.list_id fun _ => restores_uint32) fun _ => rfl)
    exact .nil
  · decide
  · exact nofun
  · exact fun _ => rfl

theorem Link.restores (h : D.Proper) : Link.codec.Restores D (Link.without D) := by
  apply Restores.record
  · apply List.Forall₂.cons (.of (Fabric.restores (h.inside _)) fun _ => rfl)
    apply List.Forall₂.cons (.of LinkKind.restores fun _ => rfl)
    apply List.Forall₂.cons (.of restores_bool fun _ => rfl)
    iterate 12 apply List.Forall₂.cons (.of restores_uint32 fun _ => rfl)
    exact .nil
  · decide
  · exact nofun
  · exact fun _ => rfl

theorem Processor.restores : Processor.codec.Restores D (Processor.without D) := by
  apply Restores.record
  · iterate 2 apply List.Forall₂.cons (.of restores_uint32 fun _ => rfl)
    apply List.Forall₂.cons (.of restores_string fun _ => rfl)
    exact .nil
  · decide
  · exact nofun
  · exact fun _ => rfl

/-- Entries of a link table, with `null` for one that is not supported. -/
theorem Link.restores_table (h : D.Proper) : (Codec.list (.option Link.codec)).Restores D
    (·.mapIdx fun i => Option.map (Link.without (D.item i))) :=
  .list fun i => .option (Link.restores (h.item i)) fun _ => nofun

theorem CapturedNode.restores (h : D.Proper) :
    CapturedNode.codec.Restores D (CapturedNode.without D) := by
  apply Restores.record
  · apply List.Forall₂.cons (.of (Profile.restores (h.inside _)) fun _ => rfl)
    apply List.Forall₂.cons
      (.of (.list fun i => MemoryBank.restores ((h.inside _).item i)) fun _ => rfl)
    apply List.Forall₂.cons (.of (.list fun _ => Cache.restores) fun _ => rfl)
    iterate 2 apply List.Forall₂.cons (.of (Link.restores_table (h.inside _)) fun _ => rfl)
    apply List.Forall₂.cons (.of (.list fun _ => Cache.restores) fun _ => rfl)
    exact .nil
  · decide
  · exact nofun
  · exact fun _ => rfl

theorem Capture.restores (h : D.Proper) : Capture.codec.Restores D (Capture.without D) := by
  apply Restores.record
  · apply List.Forall₂.cons (.of restores_uint32 fun _ => rfl)
    apply List.Forall₂.cons (.of Platform.restores fun _ => rfl)
    apply List.Forall₂.cons
      (.of (.list fun i => CapturedNode.restores ((h.inside _).item i)) fun _ => rfl)
    apply List.Forall₂.cons (.of (.list fun _ => Processor.restores) fun _ => rfl)
    exact .nil
  · decide
  · exact nofun
  · exact fun _ => rfl

end Restores

section Whole

theorem Omission.keepItems_none {α : Type} {name : String} {without : Omission → α → α}
    (h : ∀ a, without .none a = a) (xs : List α) :
    Omission.none.keepItems name without xs = xs := by
  change (xs.mapIdx fun _ => without .none) = xs
  refine List.ext_getElem (by simp) fun i _ _ => ?_
  rw [List.getElem_mapIdx, h]

/-- Where nothing is left out, nothing changes. -/
theorem CapturedNode.without_none (n : CapturedNode) : n.without .none = n := by
  have htable : ∀ name xs, Omission.none.keepItems name (fun E => Option.map (Link.without E)) xs
      = xs := fun name => Omission.keepItems_none fun a => by cases a <;> rfl
  rw [CapturedNode.without, htable, htable, Omission.keepItems_none fun _ => rfl,
    Omission.keepItems_none fun _ => rfl, Omission.keepItems_none fun _ => rfl]
  rfl

theorem Capture.without_none (c : Capture) : c.without .none = c := by
  rw [Capture.without, Omission.keepItems_none CapturedNode.without_none,
    Omission.keepItems_none fun _ => rfl]
  rfl

theorem Node.restores : Node.codec.Restores .none id := by
  apply Restores.record
  · apply List.Forall₂.cons (.of (Profile.restores Omission.proper_none) fun _ => rfl)
    apply List.Forall₂.cons
      (.of (.list_id fun _ => (MemoryBank.restores Omission.proper_none).congr fun _ => rfl)
        fun _ => rfl)
    apply List.Forall₂.cons (.of (.list_id fun _ => Cache.restores.congr fun _ => rfl) fun _ => rfl)
    apply List.Forall₂.cons
      (.of (.list_id fun _ => (Link.restores Omission.proper_none).congr fun _ => rfl) fun _ => rfl)
    exact .nil
  · decide
  · exact fun _ _ _ => rfl
  · exact fun _ => rfl

theorem Snapshot.restores : Snapshot.codec.Restores .none id := by
  apply Restores.record
  · apply List.Forall₂.cons (.of Platform.restores fun _ => rfl)
    apply List.Forall₂.cons (.of (.list_id fun _ => Node.restores) fun _ => rfl)
    apply List.Forall₂.cons (.of restores_uint32 fun _ => rfl)
    exact .nil
  · decide
  · exact fun _ _ _ => rfl
  · exact fun _ => rfl

/-- A capture and a snapshot are read back as they were written. Of the document of a capture any
fields may be left out, but not those inside an engine's version; it is read as the capture that
has the defaults there. -/
theorem documents_restored :
    (∀ c : Capture, Capture.codec.read (Capture.codec.write c) = some c)
      ∧ (∀ S : Snapshot, Snapshot.codec.read (Snapshot.codec.write S) = some S)
      ∧ ∀ (D : Omission) (c : Capture), D.Proper →
        Capture.codec.read ((Capture.codec.write c).without D) = some (c.without D) :=
  ⟨((Capture.restores Omission.proper_none).congr Capture.without_none).read_write,
    Snapshot.restores.read_write, fun _ c h => Capture.restores h c⟩

/-- The GPU id of the first node is left out. -/
def withoutGpuId : Omission := fun path =>
  path = [.field "nodes", .item 0, .field "properties", .field "gpu_id"]

/-- A node with numbers at their limits and choices without a name, and an entry that is not
supported. -/
def oddNode : CapturedNode where
  profile :=
    { gpuId := 7, uniqueId := 18446744073709551615, renderMinor := -1, shortName := "é𝔊\n" }
  banks := [{ heap := .unknown 99 }]
  links := [none, some { fabric := .unknown 6, kind := .indirect, target := 1 }]

theorem proper_withoutGpuId : withoutGpuId.Proper where
  tag path := decide_eq_false fun h => by
    have hlast := congrArg List.getLast? h
    simp at hlast
  engine path rest name := decide_eq_false fun h => by
    have hmem : Step.field "engine_id" ∈ path ++ .field "engine_id" :: rest ++ [.field name] := by
      simp
    rw [h] at hmem
    simp at hmem

theorem documents_restored_withoutGpuId : withoutGpuId.Proper
    ∧ Capture.codec.read
        ((Capture.codec.write { nodes := [oddNode, oddNode] }).without withoutGpuId)
      = some
        { nodes := [{ oddNode with profile := { oddNode.profile with gpuId := 0 } }, oddNode] } :=
  ⟨proper_withoutGpuId, (documents_restored.2.2 _ _ proper_withoutGpuId).trans (by decide +kernel)⟩

end Whole

end ComputeTopology
