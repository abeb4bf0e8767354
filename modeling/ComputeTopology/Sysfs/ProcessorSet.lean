import ComputeTopology.Hardware.Processor
import ComputeTopology.Text.Numeral
/-!
# Sets of processors

Two notations for a set of processors: a list of numbers and ranges such as `0-3,8`, of which only
the first number is of interest here, and a mask of hexadecimal words of 32 bits with commas between
them, the highest word first. `siblings` marks the processors of a set by their APIC ids.
-/

namespace ComputeTopology.ProcessorSet

/-- The first number of a list. -/
def firstOfList? (cs : List Char) : Option UInt32 :=
  let first := Text.trim ((Text.fields (· = ',') cs).headD [])
  let start := match Text.cutAt? '-' first with
    | some (start, _) => start
    | none => first
  Text.readUInt32? (Text.trim start)

/-- The numbers of the bits that are set in the word with 32 · `index` bits below it. -/
def bitsOfWord (word : UInt32) (index : Nat) : List UInt32 :=
  (List.range 32).filterMap fun bit =>
    if word.toNat.testBit bit then some (.ofNat (32 * index + bit)) else none

/-- The processors in a mask, in increasing order. -/
def ofMask? (cs : List Char) : Option (List UInt32) := do
  let words ← (Text.fields (· = ',') (Text.trim cs)).reverse.mapM fun word =>
    Text.readUInt32? (Text.trim word) 16
  return words.zipIdx.flatMap fun (word, index) => bitsOfWord word index

/-- How many APIC ids a sibling map has room for. -/
def siblingSlots : Nat := 256

/-- By APIC id, one for each processor of the set and zero elsewhere; an id without a place in the
map is left out. -/
def siblings (table : List Processor) (set : List UInt32) : List UInt32 :=
  set.foldl (fun map cpu => map.set (Processor.apicIdOf table cpu).toNat 1)
    (List.replicate siblingSlots 0)

end ComputeTopology.ProcessorSet
