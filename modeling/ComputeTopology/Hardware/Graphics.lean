import ComputeTopology.Json.Codec
/-!
# Graphics versions

The version of a graphics engine, as the driver packs it into one decimal number: two digits each
for the minor number and the stepping, and two of the digits before them for the major number.
-/

namespace ComputeTopology

structure GraphicsVersion where
  major : UInt8 := 0
  minor : UInt8 := 0
  stepping : UInt8 := 0
  deriving DecidableEq, Inhabited

namespace GraphicsVersion

/-- Unpacks a number such as `90010`, which names version 9.0.10. -/
def ofTarget (target : UInt32) : GraphicsVersion where
  major := (target / 10000 % 100).toUInt8
  minor := (target / 100 % 100).toUInt8
  stepping := (target % 100).toUInt8

/-- One byte per part. -/
def packed (v : GraphicsVersion) : UInt32 :=
  v.major.toUInt32 <<< 16 ||| v.minor.toUInt32 <<< 8 ||| v.stepping.toUInt32

/-- The engine's short name, such as `GFX09000a`. -/
def name (v : GraphicsVersion) : String :=
  "GFX" ++ Text.hex v.packed.toNat 6

def codec : Codec GraphicsVersion :=
  .record [
    .of "major" .uint8 (·.major) fun x v => { v with major := x },
    .of "minor" .uint8 (·.minor) fun x v => { v with minor := x },
    .of "stepping" .uint8 (·.stepping) fun x v => { v with stepping := x }] {} true

end GraphicsVersion

end ComputeTopology
