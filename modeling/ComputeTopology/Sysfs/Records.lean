import ComputeTopology.Hardware.Platform
import ComputeTopology.Survey.Basic
import ComputeTopology.Sysfs.PropertySheet
/-!
# Records of property sheets

How the property sheets of the driver's tree are read as reports, memory banks, caches and links.
Of two bad values in one sheet the one that is asked for first is the fault.
-/

namespace ComputeTopology.PropertySheet

variable (s : PropertySheet)

def platform (nodes : UInt32) : Except FileFault Platform := do
  return {
    nodes
    oem := ← s.uint32 "platform_oem"
    id := ← s.uint32 "platform_id"
    revision := ← s.uint32 "platform_rev" }

/-- The properties that every node has. The link count is the sum of both tables, at most what 32
bits can hold. -/
def commonProfile (gpuId peerLinks : UInt32) : Except FileFault Profile := do
  return {
    cpuCores := ← s.uint32 "cpu_cores_count"
    simds := ← s.uint32 "simd_count"
    banks := ← s.uint32 "mem_banks_count"
    caches := ← s.uint32 "caches_count"
    links := .ofNat (min ((← s.uint32 "io_links_count").toNat + peerLinks.toNat)
      (UInt32.size - 1))
    firstCoreId := ← s.uint32 "cpu_core_id_base"
    firstSimdId := ← s.uint32 "simd_id_base"
    gpuId
    hiveId := ← s.uint64 "hive_id"
    uniqueId := ← s.uint64 "unique_id"
    vendorId := (← s.uint32 "vendor_id").toUInt16
    deviceId := (← s.uint32 "device_id").toUInt16
    locationId := ← s.uint32 "location_id"
    domain := ← s.uint32 "domain"
    renderMinor := (← s.uint32 "drm_render_minor").toInt32
    localMemory := ← s.uint64 "local_mem_size"
    maxWavesPerSimd := ← s.uint32 "max_waves_per_simd"
    ldsSizeKb := ← s.uint32 "lds_size_in_kb"
    gdsSizeKb := ← s.uint32 "gds_size_in_kb"
    waveFrontSize := ← s.uint32 "wave_front_size"
    arrays := ← s.uint32 "simd_arrays_per_engine"
    unitsPerArray := ← s.uint32 "cu_per_simd_array"
    simdsPerUnit := ← s.uint32 "simd_per_cu"
    maxScratchSlots := ← s.uint32 "max_slots_scratch_cu"
    maxClockFcompute := ← s.uint32 "max_engine_clk_fcompute"
    maxClockCcompute := ← s.uint32 "max_engine_clk_ccompute"
    sdmaEngines := ← s.uint32 "num_sdma_engines"
    sdmaXgmiEngines := ← s.uint32 "num_sdma_xgmi_engines"
    sdmaQueuesPerEngine := (← s.uint32 "num_sdma_queues_per_engine").toUInt8
    cpQueues := (← s.uint32 "num_cp_queues").toUInt8
    gws := (← s.uint32 "num_gws").toUInt8
    xcc := ← s.uint32 "num_xcc"
    capability := ← s.uint32 "capability" }

/-- What a node with compute units has besides: shader banks, a version with its name, and at least
one XCC. -/
def computeProfile (p : Profile) : Except FileFault Profile := do
  if p.simds = 0 then return p
  let shaderBanks ←
    if p.arrays = 0 then pure p.shaderBanks else (· / p.arrays) <$> s.uint32 "array_count"
  let target ← s.uint32 "gfx_target_version"
  let p := { p with shaderBanks, xcc := if p.xcc = 0 then 1 else p.xcc }
  if target = 0 then return p
  else
    let engine := GraphicsVersion.ofTarget target
    return { p with engine, shortName := engine.name }

def report (gpuId : UInt32) : Except FileFault Report := do
  let peerLinks ← s.uint32 "p2p_links_count"
  let profile ← s.computeProfile (← s.commonProfile gpuId peerLinks)
  return { profile, peersPresent := peerLinks ≠ 0, peerLinks }

def memoryBank : Except FileFault MemoryBank := do
  return {
    heap := .ofCode (← s.uint32 "heap_type")
    sizeInBytes := ← s.uint64 "size_in_bytes"
    flags := ← s.uint32 "flags"
    width := ← s.uint32 "width"
    maxClock := ← s.uint32 "mem_clk_max" }

def cache : Except FileFault Cache := do
  return {
    processorIdLow := ← s.uint32 "processor_id_low"
    level := ← s.uint32 "level"
    sizeKb := ← s.uint32 "size"
    lineSize := ← s.uint32 "cache_line_size"
    linesPerTag := ← s.uint32 "cache_lines_per_tag"
    associativity := ← s.uint32 "association"
    latency := ← s.uint32 "latency"
    kinds := ⟨← s.uint32 "type"⟩
    siblings := ← s.list "sibling_map" }

/-- A direct link between two nodes that are already known by their indices. -/
def link (source target : UInt32) : Except FileFault Link := do
  return {
    fabric := .ofCode (← s.uint32 "type")
    versionMajor := ← s.uint32 "version_major"
    versionMinor := ← s.uint32 "version_minor"
    source
    target
    weight := ← s.uint32 "weight"
    minLatency := ← s.uint32 "min_latency"
    maxLatency := ← s.uint32 "max_latency"
    minBandwidth := ← s.uint32 "min_bandwidth"
    maxBandwidth := ← s.uint32 "max_bandwidth"
    transferSize := ← s.uint32 "recommended_transfer_size"
    sdmaEngineMask := ← s.uint32 "recommended_sdma_engine_id_mask"
    flags := ← s.uint32 "flags" }

end ComputeTopology.PropertySheet
