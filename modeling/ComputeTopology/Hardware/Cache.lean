import ComputeTopology.Json.Codec
/-!
# Caches

A cache of a node: where it belongs, its geometry, what it holds, and which processors share it.
-/

namespace ComputeTopology

/-- A set of flags that say what a cache holds and whose it is. -/
structure CacheKinds where
  bits : UInt32 := 0
  deriving DecidableEq, Inhabited

namespace CacheKinds

def dataBit : UInt32 := 1
def instructionBit : UInt32 := 2
def cpuBit : UInt32 := 4
def computeUnitBit : UInt32 := 8

def data (k : CacheKinds) : Bool :=
  k.bits &&& dataBit ≠ 0

def instruction (k : CacheKinds) : Bool :=
  k.bits &&& instructionBit ≠ 0

def cpu (k : CacheKinds) : Bool :=
  k.bits &&& cpuBit ≠ 0

def computeUnit (k : CacheKinds) : Bool :=
  k.bits &&& computeUnitBit ≠ 0

/-- The names of the flags that are set; bits without a name are passed over. -/
def names (k : CacheKinds) : List String :=
  [(k.data, "Data"), (k.instruction, "Instruction"), (k.cpu, "CPU"), (k.computeUnit, "HSACU")]
    |>.filterMap fun (set, name) => if set then some name else none

def describe (k : CacheKinds) : String :=
  "CacheType(" ++ "|".intercalate k.names ++ ")"

def codec : Codec CacheKinds where
  write k := Codec.uint32.write k.bits
  read j := (Codec.uint32.read j).map .mk

end CacheKinds

structure Cache where
  /-- The APIC id of the first processor that uses the cache. -/
  processorIdLow : UInt32 := 0
  level : UInt32 := 0
  sizeKb : UInt32 := 0
  lineSize : UInt32 := 0
  linesPerTag : UInt32 := 0
  associativity : UInt32 := 0
  latency : UInt32 := 0
  kinds : CacheKinds := {}
  /-- By APIC id, one for a processor that shares the cache; empty if that is not known. -/
  siblings : List UInt32 := []
  deriving DecidableEq, Inhabited

def Cache.codec : Codec Cache :=
  .record [
    .of "processor_id_low" .uint32 (·.processorIdLow) fun x c => { c with processorIdLow := x },
    .of "level" .uint32 (·.level) fun x c => { c with level := x },
    .of "size_kb" .uint32 (·.sizeKb) fun x c => { c with sizeKb := x },
    .of "line_size" .uint32 (·.lineSize) fun x c => { c with lineSize := x },
    .of "lines_per_tag" .uint32 (·.linesPerTag) fun x c => { c with linesPerTag := x },
    .of "associativity" .uint32 (·.associativity) fun x c => { c with associativity := x },
    .of "latency" .uint32 (·.latency) fun x c => { c with latency := x },
    .of "cache_type" CacheKinds.codec (·.kinds) fun x c => { c with kinds := x },
    .of "sibling_map" (.list .uint32) (·.siblings) fun x c => { c with siblings := x }] {}

end ComputeTopology
