import ComputeTopology.Json.Codec
/-!
# Memory banks

A bank of memory and the heap it belongs to. `Heap.framePublic` is the part of a GPU's own memory
that the CPU can reach; only a GPU with such a bank can be the end of an indirect link.
-/

namespace ComputeTopology

inductive Heap
  | system
  | framePublic
  | framePrivate
  | gds
  | lds
  | scratch
  | svm
  | mmioRemap
  | unknown (code : UInt32)
  deriving DecidableEq, Inhabited

namespace Heap

def named : List (String × Heap) :=
  [("System", system), ("FrameBufferPublic", framePublic), ("FrameBufferPrivate", framePrivate),
    ("GpuGds", gds), ("GpuLds", lds), ("GpuScratch", scratch), ("DeviceSvm", svm),
    ("MmioRemap", mmioRemap)]

def name : Heap → String ⊕ UInt32
  | system => .inl "System"
  | framePublic => .inl "FrameBufferPublic"
  | framePrivate => .inl "FrameBufferPrivate"
  | gds => .inl "GpuGds"
  | lds => .inl "GpuLds"
  | scratch => .inl "GpuScratch"
  | svm => .inl "DeviceSvm"
  | mmioRemap => .inl "MmioRemap"
  | unknown code => .inr code

/-- The driver numbers the heaps from zero in the order of their declaration. -/
def ofCode (code : UInt32) : Heap :=
  match code.toNat with
  | 0 => system
  | 1 => framePublic
  | 2 => framePrivate
  | 3 => gds
  | 4 => lds
  | 5 => scratch
  | 6 => svm
  | 7 => mmioRemap
  | _ => unknown code

def codec : Codec Heap :=
  .choiceOrNumber named name unknown

end Heap

structure MemoryBank where
  heap : Heap := .system
  sizeInBytes : UInt64 := 0
  flags : UInt32 := 0
  /-- In bits. -/
  width : UInt32 := 0
  maxClock : UInt32 := 0
  deriving DecidableEq, Inhabited

def MemoryBank.codec : Codec MemoryBank :=
  .record [
    .of "heap_type" Heap.codec (·.heap) fun x b => { b with heap := x },
    .of "size_in_bytes" .uint64 (·.sizeInBytes) fun x b => { b with sizeInBytes := x },
    .of "flags" .uint32 (·.flags) fun x b => { b with flags := x },
    .of "width" .uint32 (·.width) fun x b => { b with width := x },
    .of "mem_clk_max" .uint32 (·.maxClock) fun x b => { b with maxClock := x }] {}

end ComputeTopology
