import ComputeTopology.Hardware.Cache
import ComputeTopology.Hardware.Graphics
import ComputeTopology.Hardware.Link
import ComputeTopology.Hardware.Memory
import ComputeTopology.Hardware.Processor
/-!
# Nodes

A node of the topology holds CPU cores, a GPU, or both. Its profile lists its fixed properties and
how many banks, caches and links it has; a survey replaces the counts of caches and links by what
it found. A node counts as a GPU if its GPU id is not zero.
-/

namespace ComputeTopology

structure Profile where
  cpuCores : UInt32 := 0
  simds : UInt32 := 0
  banks : UInt32 := 0
  caches : UInt32 := 0
  links : UInt32 := 0
  /-- The APIC id of the first CPU core. -/
  firstCoreId : UInt32 := 0
  firstSimdId : UInt32 := 0
  gpuId : UInt32 := 0
  /-- GPUs of one hive are wired to each other; zero is no hive. -/
  hiveId : UInt64 := 0
  uniqueId : UInt64 := 0
  vendorId : UInt16 := 0
  deviceId : UInt16 := 0
  locationId : UInt32 := 0
  domain : UInt32 := 0
  renderMinor : Int32 := 0
  localMemory : UInt64 := 0
  maxWavesPerSimd : UInt32 := 0
  ldsSizeKb : UInt32 := 0
  gdsSizeKb : UInt32 := 0
  waveFrontSize : UInt32 := 0
  shaderBanks : UInt32 := 0
  arrays : UInt32 := 0
  unitsPerArray : UInt32 := 0
  simdsPerUnit : UInt32 := 0
  maxScratchSlots : UInt32 := 0
  maxClockFcompute : UInt32 := 0
  maxClockCcompute : UInt32 := 0
  sdmaEngines : UInt32 := 0
  sdmaXgmiEngines : UInt32 := 0
  sdmaQueuesPerEngine : UInt8 := 0
  cpQueues : UInt8 := 0
  gws : UInt8 := 0
  xcc : UInt32 := 0
  capability : UInt32 := 0
  engine : GraphicsVersion := {}
  shortName : String := ""
  productName : String := ""
  deriving DecidableEq, Inhabited

namespace Profile

def isGpu (p : Profile) : Bool :=
  p.gpuId ≠ 0

/-- Names the node after the processor that carries the id of its first core. A node with a device
id keeps its short name. -/
def nameAfter (p : Profile) (table : List Processor) : Profile :=
  match table.find? (·.apicId = p.firstCoreId) with
  | none => p
  | some cpu =>
    { p with
      shortName := if p.deviceId = 0 then cpu.model else p.shortName
      productName := cpu.model }

def codec : Codec Profile :=
  .record [
    .of "num_cpu_cores" .uint32 (·.cpuCores) fun x p => { p with cpuCores := x },
    .of "num_f_compute_cores" .uint32 (·.simds) fun x p => { p with simds := x },
    .of "num_memory_banks" .uint32 (·.banks) fun x p => { p with banks := x },
    .of "num_caches" .uint32 (·.caches) fun x p => { p with caches := x },
    .of "num_io_links" .uint32 (·.links) fun x p => { p with links := x },
    .of "ccompute_id_lo" .uint32 (·.firstCoreId) fun x p => { p with firstCoreId := x },
    .of "fcompute_id_lo" .uint32 (·.firstSimdId) fun x p => { p with firstSimdId := x },
    .of "gpu_id" .uint32 (·.gpuId) fun x p => { p with gpuId := x },
    .of "hive_id" .uint64 (·.hiveId) fun x p => { p with hiveId := x },
    .of "unique_id" .uint64 (·.uniqueId) fun x p => { p with uniqueId := x },
    .of "vendor_id" .uint16 (·.vendorId) fun x p => { p with vendorId := x },
    .of "device_id" .uint16 (·.deviceId) fun x p => { p with deviceId := x },
    .of "location_id" .uint32 (·.locationId) fun x p => { p with locationId := x },
    .of "domain" .uint32 (·.domain) fun x p => { p with domain := x },
    .of "drm_render_minor" .int32 (·.renderMinor) fun x p => { p with renderMinor := x },
    .of "local_mem_size" .uint64 (·.localMemory) fun x p => { p with localMemory := x },
    .of "max_waves_per_simd" .uint32 (·.maxWavesPerSimd) fun x p => { p with maxWavesPerSimd := x },
    .of "lds_size_in_kb" .uint32 (·.ldsSizeKb) fun x p => { p with ldsSizeKb := x },
    .of "gds_size_in_kb" .uint32 (·.gdsSizeKb) fun x p => { p with gdsSizeKb := x },
    .of "wave_front_size" .uint32 (·.waveFrontSize) fun x p => { p with waveFrontSize := x },
    .of "num_shader_banks" .uint32 (·.shaderBanks) fun x p => { p with shaderBanks := x },
    .of "num_arrays" .uint32 (·.arrays) fun x p => { p with arrays := x },
    .of "num_cu_per_array" .uint32 (·.unitsPerArray) fun x p => { p with unitsPerArray := x },
    .of "num_simd_per_cu" .uint32 (·.simdsPerUnit) fun x p => { p with simdsPerUnit := x },
    .of "max_slots_scratch_cu" .uint32 (·.maxScratchSlots)
      fun x p => { p with maxScratchSlots := x },
    .of "max_engine_clock_mhz_fcompute" .uint32 (·.maxClockFcompute)
      fun x p => { p with maxClockFcompute := x },
    .of "max_engine_clock_mhz_ccompute" .uint32 (·.maxClockCcompute)
      fun x p => { p with maxClockCcompute := x },
    .of "num_sdma_engines" .uint32 (·.sdmaEngines) fun x p => { p with sdmaEngines := x },
    .of "num_sdma_xgmi_engines" .uint32 (·.sdmaXgmiEngines)
      fun x p => { p with sdmaXgmiEngines := x },
    .of "num_sdma_queues_per_engine" .uint8 (·.sdmaQueuesPerEngine)
      fun x p => { p with sdmaQueuesPerEngine := x },
    .of "num_cp_queues" .uint8 (·.cpQueues) fun x p => { p with cpQueues := x },
    .of "num_gws" .uint8 (·.gws) fun x p => { p with gws := x },
    .of "num_xcc" .uint32 (·.xcc) fun x p => { p with xcc := x },
    .of "capability" .uint32 (·.capability) fun x p => { p with capability := x },
    .of "engine_id" GraphicsVersion.codec (·.engine) fun x p => { p with engine := x },
    .of "amd_name" .string (·.shortName) fun x p => { p with shortName := x },
    .of "marketing_name" .string (·.productName) fun x p => { p with productName := x }] {}

end Profile

/-- A node with all that a survey found on it. -/
structure Node where
  profile : Profile
  banks : List MemoryBank
  caches : List Cache
  links : List Link
  deriving DecidableEq, Inhabited

namespace Node

def isGpu (n : Node) : Bool :=
  n.profile.isGpu

/-- The first link to `target`. -/
def linkTo? (n : Node) (target : UInt32) : Option Link :=
  n.links.find? (·.target = target)

def indirectLinks (n : Node) : List Link :=
  n.links.filter (·.isIndirect)

def codec : Codec Node :=
  .record [
    .of "properties" Profile.codec (·.profile) fun x n => { n with profile := x },
    .of "memory_banks" (.list MemoryBank.codec) (·.banks) fun x n => { n with banks := x },
    .of "caches" (.list Cache.codec) (·.caches) fun x n => { n with caches := x },
    .of "links" (.list Link.codec) (·.links) fun x n => { n with links := x }]
    ⟨{}, [], [], []⟩ true

end Node

end ComputeTopology
